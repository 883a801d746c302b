import ResultChunks.Retry.Policy

/-!
# Running an operation under a policy

The run is a loop of attempts and waits. `Turn` is where it stands between two stretches of other
people's time: an attempt is under way, or a wait. `begin` starts an attempt and `settle` says what
its result leads to; whoever drives the loop owns the time in between. `run` drives it for an
operation whose attempts are known in advance, on a clock that wakes sleepers on whole milliseconds.
Every retry uses up slack of the account, so the loop ends. An attempt that has no number any more is
not made: then the run is lost, as it is when a sum of waits leaves the range of durations.
-/

namespace ResultChunks

/-- What an operation came to, and what retrying it took. -/
structure Outcome (α : Type) where
  result : Except FetchError α
  attempts : Nat
  waited : Duration

/-- The retries behind a number of attempts. -/
def retriesOf (attempts : Nat) : Nat := attempts - 1

namespace Retry

/-- What the result of an attempt leads to. -/
inductive Turn (α : Type) where
  /-- The operation is over. -/
  | finished (outcome : Outcome α)
  /-- Wait, then try again. -/
  | pause (cls : FailureClass) (delay : Duration) (account : Account)

/-- The outcome of an operation that was cancelled. -/
def cancelledAt {α : Type} (a : Account) : Outcome α := ⟨.error .cancelled, a.attempts, a.waited⟩

/-- Is there no number left for another attempt? -/
def Account.full (a : Account) : Bool := attemptLimit ≤ a.attempts + 1

@[simp] theorem full_unused : ({} : Account).full = false := rfl

/-- Count one more attempt. -/
def Account.begin (a : Account) : Account := { a with attempts := a.attempts + 1 }

/-- Settle the result of the attempt counted last. There is no answer when a sum of waits leaves
the range of durations. -/
def settle {α : Type} (p : RetryPolicy) (m : Method) (addition : Duration) (a : Account) :
    Except FetchError α → Option (Turn α)
  | .ok value => some (.finished ⟨.ok value, a.attempts, a.waited⟩)
  | .error .cancelled => some (.finished (cancelledAt a))
  | .error error =>
    match p.decide m addition a error with
    | none => none
    | some (.giveUp reported, b) => some (.finished ⟨.error reported, b.attempts, b.waited⟩)
    | some (.retry cls delay, b) => some (.pause cls delay b)

/-- What the log says about a failed attempt. -/
def settleLog {α : Type} (p : RetryPolicy) (m : Method) (a : Account) (error : FetchError) :
    Option (Turn α) → List Log.Entry
  | some (.pause cls delay _) =>
    [⟨.warn, .retry, s!"Attempt {a.attempts} failed ({cls.name}): {error.message}, " ++
      s!"retrying in {delay.text}"⟩]
  | some (.finished ⟨.error reported, _, _⟩) =>
    if error = .cancelled then [] else p.decisionLog m error (.giveUp reported)
  | _ => []

/-- What the log says about the result of an attempt. -/
def resultLog {α : Type} (p : RetryPolicy) (m : Method) (a : Account) (result : Except FetchError α)
    (turn : Option (Turn α)) : List Log.Entry :=
  match result with
  | .ok _ => []
  | .error error => settleLog p m a error turn

theorem slack_begin (a : Account) (n : Nat) : a.begin.slack n = a.slack n := rfl

theorem slack_settle_lt {α : Type} {p : RetryPolicy} {m : Method} {addition delay : Duration}
    {a b : Account} {result : Except FetchError α} {cls : FailureClass}
    (h : settle p m addition a result = some (.pause cls delay b)) :
    b.slack p.maxRetries < a.slack p.maxRetries := by
  unfold settle at h
  split at h
  · simp at h
  · simp at h
  · split at h
    · simp at h
    · simp at h
    · rename_i hd
      simp only [Option.some.injEq, Turn.pause.injEq] at h
      obtain ⟨rfl, rfl, rfl⟩ := h
      exact RetryPolicy.slack_decide_lt hd

/-! ## A whole run -/

/-- How long an attempt takes and what comes of it. -/
structure Attempt (α : Type) where
  took : Duration
  result : Except FetchError α

/-- A retry as an observer sees it, before the wait. -/
structure Observation where
  time : Duration
  cls : FailureClass
  attempt : Nat
  delay : Duration
deriving DecidableEq, Repr, Inhabited

/-- The record of a run: its outcome, the attempts made, the retries observed, and its end. -/
structure Record (α : Type) where
  outcome : Outcome α
  calls : List (Duration × Nat)
  observed : List Observation
  finish : Duration
  log : List Log.Entry

/-- The moment at which a sleeper due at a time wakes: the next whole millisecond. -/
def wakeTime (due : Duration) : Duration :=
  .ofMillis ((due.nanos + (Duration.perMilli - 1)) / Duration.perMilli)

/-- Is the run cancelled at a time? -/
def isCancelled (cancelAt : Option Duration) (now : Duration) : Bool :=
  cancelAt.any fun t => t ≤ now

/-- The moment before `due` at which the run is cancelled, if there is one. -/
def cancelBefore (cancelAt : Option Duration) (due : Duration) : Option Duration :=
  cancelAt.filter fun t => t < due

/-- Put a call in front of a record. -/
def Record.addCall {α : Type} (r : Record α) (now : Duration) (attempt : Nat) : Record α :=
  { r with calls := (now, attempt) :: r.calls }

/-- Put a retry and its log in front of a record. -/
def Record.addRetry {α : Type} (r : Record α) (o : Observation) (entries : List Log.Entry) :
    Record α :=
  { r with observed := o :: r.observed, log := entries ++ r.log }

/-- A record that ends here. -/
def Record.ending {α : Type} (outcome : Outcome α) (finish : Duration) (log : List Log.Entry) :
    Record α :=
  ⟨outcome, [], [], finish, log⟩

/-- Run an operation from a moment on. `operation n` is what its `n`-th attempt does, `addition n`
the random part of the wait after it. -/
def runFrom {α : Type} (p : RetryPolicy) (m : Method) (cancelAt : Option Duration)
    (addition : Nat → Duration) (operation : Nat → Attempt α) (now : Duration) (a : Account) :
    Option (Record α) :=
  if isCancelled cancelAt now then some (.ending (cancelledAt a) now [])
  else if a.full then none
  else
    let b := a.begin
    let attempt := operation b.attempts
    let due := wakeTime (now + attempt.took)
    match cancelBefore cancelAt due with
    | some t => some ((Record.ending (cancelledAt b) t []).addCall now b.attempts)
    | none =>
      match _turned : settle p m (addition b.attempts) b attempt.result with
      | none => none
      | some (.finished outcome) =>
        let log := resultLog p m b attempt.result (some (.finished outcome))
        some ((Record.ending outcome due log).addCall now b.attempts)
      | some (.pause cls delay c) =>
        let log := resultLog p m b attempt.result (some (.pause cls delay c))
        let seen : Observation := ⟨due, cls, b.attempts, delay⟩
        let wake := wakeTime (due + delay)
        match cancelBefore cancelAt wake with
        | some t => some (((Record.ending (cancelledAt c) t []).addRetry seen log).addCall now
            b.attempts)
        | none => (runFrom p m cancelAt addition operation wake c).map fun r =>
            (r.addRetry seen log).addCall now b.attempts
  termination_by a.slack p.maxRetries
  decreasing_by
    have := slack_settle_lt _turned
    rwa [slack_begin] at this

/-- Run an operation from the start. -/
def run {α : Type} (p : RetryPolicy) (m : Method) (cancelAt : Option Duration)
    (addition : Nat → Duration) (operation : Nat → Attempt α) : Option (Record α) :=
  runFrom p m cancelAt addition operation .zero {}

end Retry

end ResultChunks
