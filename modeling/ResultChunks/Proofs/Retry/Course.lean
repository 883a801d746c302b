import Mathlib.Algebra.Order.BigOperators.Group.List
import Mathlib.Algebra.Order.Ring.Nat
import ResultChunks.Retry.Run

/-!
# The course of a retried operation

`Course` says which retries an operation makes: it is the loop of `runFrom` without its clock, so it
covers a run that is cancelled, and one that is lost when a sum of waits leaves the range of
durations or the attempts that of their numbers. `Books` ties the account to the retries made so far,
and `Within` says that they keep to the limits of the policy. A retry that is granted keeps both, since
`decide` looks at the account before it grants one; so at every moment of every run the limits are kept,
and as each class has a number of retries of its own, the run is over after at most four times that
number.
-/

namespace ResultChunks.Retry

/-- A wait before a retry, and the class of the failure that it follows. -/
structure Wait where
  cls : FailureClass
  delay : Duration
deriving DecidableEq, Repr, Inhabited

/-- The wait that an observer was told of. -/
def Observation.wait (o : Observation) : Wait := ⟨o.cls, o.delay⟩

/-- The number of retries in a class. -/
def retriesIn (c : FailureClass) (waits : List Wait) : Nat := waits.countP fun w => w.cls = c

/-- The time waited in a class. -/
def waitedIn (c : FailureClass) (waits : List Wait) : Duration :=
  ⟨((waits.filter fun w => w.cls = c).map fun w => w.delay.nanos).sum⟩

/-- The time waited in all classes. -/
def waitedInAll (waits : List Wait) : Duration := ⟨(waits.map fun w => w.delay.nanos).sum⟩

/-- What the waits so far use up of the budget of a class. -/
def usedIn (c : FailureClass) (waits : List Wait) : Budget := ⟨retriesIn c waits, waitedIn c waits⟩

/-- The budgets of an account are up to date with the waits so far. -/
structure Ledger (waits : List Wait) (a : Account) : Prop where
  budgets : ∀ c, a.budget c = usedIn c waits
  total : a.waited = waitedInAll waits

/-- An account is up to date with the retries made so far. -/
structure Books (waits : List Wait) (a : Account) : Prop where
  attempts : a.attempts = waits.length
  retries : ∀ c, (a.budget c).retries = retriesIn c waits
  waited : ∀ c, (a.budget c).waited = waitedIn c waits
  total : a.waited = waitedInAll waits

/-- The retries keep to the limits of a policy. -/
structure Within (p : RetryPolicy) (waits : List Wait) : Prop where
  retries : ∀ c, retriesIn c waits ≤ p.maxRetries
  waited : ∀ {c : FailureClass} {limit : Duration}, p.timeBudget c = some limit →
    waitedIn c waits ≤ limit

/-! ## Counting waits -/

theorem retriesIn_concat (c : FailureClass) (waits : List Wait) (w : Wait) :
    retriesIn c (waits ++ [w]) = retriesIn c waits + if w.cls = c then 1 else 0 := by
  simp [retriesIn, List.countP_append, List.countP_singleton]

theorem waitedIn_concat_self (waits : List Wait) (w : Wait) :
    waitedIn w.cls (waits ++ [w]) = waitedIn w.cls waits + w.delay := by
  show (⟨_⟩ : Duration) = ⟨_ + _⟩
  simp [waitedIn]

theorem waitedIn_concat_of_ne {c : FailureClass} (waits : List Wait) {w : Wait} (h : c ≠ w.cls) :
    waitedIn c (waits ++ [w]) = waitedIn c waits := by
  simp [waitedIn, List.filter_append, Ne.symm h]

theorem waitedInAll_concat (waits : List Wait) (w : Wait) :
    waitedInAll (waits ++ [w]) = waitedInAll waits + w.delay := by
  show (⟨_⟩ : Duration) = ⟨_ + _⟩
  simp [waitedInAll]

theorem usedIn_concat_self (waits : List Wait) (w : Wait) : usedIn w.cls (waits ++ [w]) =
    ⟨(usedIn w.cls waits).retries + 1, (usedIn w.cls waits).waited + w.delay⟩ := by
  rw [usedIn, retriesIn_concat, if_pos rfl, waitedIn_concat_self]
  rfl

theorem usedIn_concat_of_ne {c : FailureClass} (waits : List Wait) {w : Wait} (h : c ≠ w.cls) :
    usedIn c (waits ++ [w]) = usedIn c waits := by
  rw [usedIn, retriesIn_concat, if_neg (Ne.symm h), waitedIn_concat_of_ne waits h]
  rfl

/-- A class waits no longer than all classes together. -/
theorem waitedIn_le (c : FailureClass) (waits : List Wait) : waitedIn c waits ≤ waitedInAll waits := by
  show ((waits.filter fun w => w.cls = c).map fun w => w.delay.nanos).sum ≤ _
  exact (List.filter_sublist.map _).sum_le_sum fun _ _ => Nat.zero_le _

/-- Every retry is one of some class. -/
theorem length_eq_retries (waits : List Wait) : waits.length =
    retriesIn .temporarilyUnavailable waits + retriesIn .rateLimited waits +
      retriesIn .serverError waits + retriesIn .connection waits := by
  induction waits with
  | nil => rfl
  | cons w ws ih =>
      simp only [retriesIn, List.countP_cons, List.length_cons] at ih ⊢
      cases w.cls <;> simp <;> omega

namespace Within

variable {p : RetryPolicy} {waits : List Wait}

theorem nil (p : RetryPolicy) : Within p [] :=
  ⟨fun _ => Nat.zero_le _, fun {_ limit} _ => Nat.zero_le limit.nanos⟩

/-- What keeps to the limits kept to them before. -/
theorem take (h : Within p waits) (n : Nat) : Within p (waits.take n) := by
  have hsub : (waits.take n).Sublist waits := List.take_sublist n waits
  constructor
  · intro c
    exact Nat.le_trans (hsub.countP_le) (h.retries c)
  · intro c limit hlimit
    have hsum : waitedIn c (waits.take n) ≤ waitedIn c waits :=
      ((hsub.filter _).map _).sum_le_sum fun _ _ => Nat.zero_le _
    exact Nat.le_trans hsum (h.waited hlimit)

/-- There are four classes, each with a number of retries of its own. -/
theorem length_le (h : Within p waits) : waits.length ≤ 4 * p.maxRetries := by
  have h₁ := h.retries .temporarilyUnavailable
  have h₂ := h.retries .rateLimited
  have h₃ := h.retries .serverError
  have h₄ := h.retries .connection
  rw [length_eq_retries]
  omega

end Within

/-! ## What a decision does to the account -/

section

variable {p : RetryPolicy} {m : Method} {addition delay : Duration} {a b : Account}
  {error : FetchError} {cls : FailureClass}

/-- An account without anything in it. -/
theorem ledger_nil : Ledger [] {} where
  budgets := by intro c; cases c <;> rfl
  total := rfl

theorem books_nil : Books [] {} where
  attempts := rfl
  retries := by intro c; cases c <;> rfl
  waited := by intro c; cases c <;> rfl
  total := rfl

/-- A new attempt is no retry yet. -/
theorem budget_begin (a : Account) (c : FailureClass) : a.begin.budget c = a.budget c := by
  cases c <;> rfl

theorem charge?_eq_some_iff : RetryPolicy.charge? a cls delay = some b ↔
    ((a.budget cls).waited + delay).InRange ∧ (a.waited + delay).InRange
      ∧ b = { a.setBudget cls ⟨(a.budget cls).retries + 1, (a.budget cls).waited + delay⟩ with
        waited := a.waited + delay } := by
  unfold RetryPolicy.charge? Duration.add?
  by_cases h₁ : ((a.budget cls).waited + delay).InRange
  · by_cases h₂ : (a.waited + delay).InRange
    · simp [h₁, h₂, eq_comm]
    · simp [h₁, h₂]
  · simp [h₁]

/-- **A retry is granted only within the limits**, and is then entered into the account. -/
theorem decide_retry (h : p.decide m addition a error = some (.retry cls delay, b)) :
    (a.budget cls).retries < p.maxRetries
      ∧ (∀ limit, p.timeBudget cls = some limit → (a.budget cls).waited + delay ≤ limit)
      ∧ RetryPolicy.charge? a cls delay = some b := by
  unfold RetryPolicy.decide at h
  split at h
  · simp at h
  split at h
  · simp at h
  unfold RetryPolicy.decideClass at h
  dsimp only at h
  split at h
  · simp [RetryPolicy.exhausted] at h
  rename_i hretries
  split at h
  · simp at h
  · simp [RetryPolicy.exhausted] at h
  rename_i hfits
  obtain ⟨b', hcharge, heq⟩ := Option.map_eq_some_iff.1 h
  simp only [Prod.mk.injEq, Decision.retry.injEq] at heq
  obtain ⟨⟨rfl, rfl⟩, rfl⟩ := heq
  refine ⟨by omega, ?_, hcharge⟩
  intro limit hlimit
  rw [RetryPolicy.fits?, hlimit] at hfits
  obtain ⟨total, htotal, hle⟩ := Option.map_eq_some_iff.1 hfits
  obtain ⟨-, rfl⟩ := Duration.add?_eq_some_iff.1 htotal
  exact of_decide_eq_true hle

/-- An operation that is given up leaves the account as it is. -/
theorem decide_giveUp {reported : FetchError}
    (h : p.decide m addition a error = some (.giveUp reported, b)) : b = a := by
  unfold RetryPolicy.decide at h
  split at h
  · exact (congrArg Prod.snd (Option.some.inj h)).symm
  split at h
  · exact (congrArg Prod.snd (Option.some.inj h)).symm
  unfold RetryPolicy.decideClass at h
  dsimp only at h
  split at h
  · exact (congrArg Prod.snd (Option.some.inj h)).symm
  split at h
  · simp at h
  · exact (congrArg Prod.snd (Option.some.inj h)).symm
  · obtain ⟨b', -, heq⟩ := Option.map_eq_some_iff.1 h
    simp at heq

/-- The wait that a failure asks for takes the account out of the range of durations. -/
def Overflows (p : RetryPolicy) (addition : Duration) (a : Account) (error : FetchError) : Prop :=
  ∃ cls, p.classify error = some cls
    ∧ ¬ (a.waited + p.delayFor addition (a.budget cls) error).InRange

/-- **A decision is missing only where a sum of waits leaves the range of durations.** -/
theorem decide_none (hsum : ∀ c, (a.budget c).waited ≤ a.waited)
    (h : p.decide m addition a error = none) : Overflows p addition a error := by
  unfold RetryPolicy.decide at h
  split at h
  · simp at h
  split at h
  · simp at h
  rename_i cls hcls
  refine ⟨cls, hcls, ?_⟩
  intro hrange
  -- what is in range in all classes together is so in one class
  have hclass : ((a.budget cls).waited + p.delayFor addition (a.budget cls) error).InRange := by
    have hle : (a.budget cls).waited.nanos ≤ a.waited.nanos := hsum cls
    unfold Duration.InRange at hrange ⊢
    simp only [Duration.nanos_add] at hrange ⊢
    omega
  unfold RetryPolicy.decideClass at h
  dsimp only at h
  split at h
  · simp at h
  split at h
  · rename_i hfits
    unfold RetryPolicy.fits? at hfits
    split at hfits
    · simp at hfits
    · rw [Option.map_eq_none_iff, Duration.add?_eq_none_iff] at hfits
      exact hfits hclass
  · simp at h
  · rw [Option.map_eq_none_iff] at h
    have hcharge := charge?_eq_some_iff.2 ⟨hclass, hrange, rfl⟩
    rw [h] at hcharge
    simp at hcharge

/-- A wait that is entered keeps the budgets up to date. -/
theorem Ledger.charged {waits : List Wait} {w : Wait} (h : Ledger waits a)
    (hcharge : RetryPolicy.charge? a w.cls w.delay = some b) : Ledger (waits ++ [w]) b := by
  obtain ⟨-, -, rfl⟩ := charge?_eq_some_iff.1 hcharge
  constructor
  · intro c
    change (a.setBudget w.cls _).budget c = _
    by_cases hc : c = w.cls
    · subst hc
      rw [Account.budget_setBudget_self, usedIn_concat_self, h.budgets]
    · rw [Account.budget_setBudget_of_ne _ _ hc, usedIn_concat_of_ne waits hc, h.budgets]
  · rw [waitedInAll_concat, ← h.total]

theorem Books.ledger {waits : List Wait} (h : Books waits a) : Ledger waits a.begin where
  budgets := by
    intro c
    rw [budget_begin, usedIn, ← h.retries, ← h.waited]
  total := h.total

/-- **A retry that is granted keeps the books up to date.** -/
theorem Books.retry {waits : List Wait} (h : Books waits a)
    (hd : p.decide m addition a.begin error = some (.retry cls delay, b)) :
    Books (waits ++ [⟨cls, delay⟩]) b := by
  obtain ⟨-, -, hcharge⟩ := decide_retry hd
  have hledger : Ledger (waits ++ [⟨cls, delay⟩]) b := h.ledger.charged hcharge
  refine ⟨?_, fun c => congrArg Budget.retries (hledger.budgets c),
    fun c => congrArg Budget.waited (hledger.budgets c), hledger.total⟩
  obtain ⟨-, -, rfl⟩ := charge?_eq_some_iff.1 hcharge
  change (a.begin.setBudget cls _).attempts = _
  rw [Account.attempts_setBudget, List.length_append, ← h.attempts]
  rfl

/-- One more wait that the limits allow. -/
theorem Within.concat {waits : List Wait} {w : Wait} (h : Within p waits)
    (hretries : retriesIn w.cls waits < p.maxRetries)
    (hwaited : ∀ limit, p.timeBudget w.cls = some limit →
      waitedIn w.cls waits + w.delay ≤ limit) : Within p (waits ++ [w]) := by
  constructor
  · intro c
    rw [retriesIn_concat]
    by_cases hc : w.cls = c
    · rw [if_pos hc, ← hc]
      exact hretries
    · rw [if_neg hc]
      exact h.retries c
  · intro c limit hlimit
    by_cases hc : c = w.cls
    · subst hc
      rw [waitedIn_concat_self]
      exact hwaited limit hlimit
    · rw [waitedIn_concat_of_ne waits hc]
      exact h.waited hlimit

/-- **And it keeps to the limits.** -/
theorem Within.retry {waits : List Wait} (h : Within p waits) (hbooks : Books waits a)
    (hd : p.decide m addition a.begin error = some (.retry cls delay, b)) :
    Within p (waits ++ [⟨cls, delay⟩]) := by
  obtain ⟨hretries, hwaited, -⟩ := decide_retry hd
  rw [budget_begin, hbooks.retries] at hretries
  rw [budget_begin, hbooks.waited] at hwaited
  exact h.concat hretries hwaited

theorem settle_pause {α : Type} {result : Except FetchError α}
    (h : settle p m addition a result = some (.pause cls delay b)) :
    ∃ error, result = .error error ∧ p.decide m addition a error = some (.retry cls delay, b) := by
  unfold settle at h
  split at h
  · simp at h
  · simp at h
  · rename_i error _
    refine ⟨error, rfl, ?_⟩
    split at h
    · simp at h
    · simp at h
    · rename_i hd
      simp only [Option.some.injEq, Turn.pause.injEq] at h
      obtain ⟨rfl, rfl, rfl⟩ := h
      exact hd

theorem settle_finished {α : Type} {result : Except FetchError α} {o : Outcome α}
    (h : settle p m addition a result = some (.finished o)) : o.attempts = a.attempts := by
  unfold settle at h
  split at h
  · obtain rfl := Turn.finished.inj (Option.some.inj h)
    rfl
  · obtain rfl := Turn.finished.inj (Option.some.inj h)
    rfl
  · split at h
    · simp at h
    · rename_i reported b hd
      obtain rfl := Turn.finished.inj (Option.some.inj h)
      exact congrArg Account.attempts (decide_giveUp hd)
    · simp at h

theorem settle_none {α : Type} {result : Except FetchError α}
    (hsum : ∀ c, (a.budget c).waited ≤ a.waited) (h : settle p m addition a result = none) :
    ∃ error, result = .error error ∧ Overflows p addition a error := by
  unfold settle at h
  split at h
  · simp at h
  · simp at h
  · rename_i error _
    refine ⟨error, rfl, ?_⟩
    split at h
    · rename_i hd
      exact decide_none hsum hd
    · simp at h
    · simp at h

end

/-! ## The course of an operation -/

section

variable {α : Type} {p : RetryPolicy} {m : Method} {addition : Nat → Duration}

/-- The retries that an operation has made when it begins an attempt, and its account then. Its
`n`-th attempt comes to `results n`, and `addition n` is the random part of the wait after it. -/
inductive Course (p : RetryPolicy) (m : Method) (addition : Nat → Duration)
    (results : Nat → Except FetchError α) : List Wait → Account → Prop
  | start : Course p m addition results [] {}
  | retry {waits : List Wait} {a b : Account} {cls : FailureClass} {delay : Duration}
      (h : Course p m addition results waits a)
      (hturn : settle p m (addition a.begin.attempts) a.begin (results a.begin.attempts) =
        some (.pause cls delay b)) :
      Course p m addition results (waits ++ [⟨cls, delay⟩]) b

namespace Course

variable {results : Nat → Except FetchError α} {waits : List Wait} {a : Account}

/-- **The account is up to date at every attempt.** -/
theorem books (h : Course p m addition results waits a) : Books waits a := by
  induction h with
  | start => exact books_nil
  | retry _ hturn ih =>
      obtain ⟨error, -, hd⟩ := settle_pause hturn
      exact ih.retry hd

/-- **The limits are kept at every attempt.** -/
theorem within (h : Course p m addition results waits a) : Within p waits := by
  induction h with
  | start => exact .nil p
  | retry h hturn ih =>
      obtain ⟨error, -, hd⟩ := settle_pause hturn
      exact ih.retry h.books hd

/-- No class has waited for longer than all together. -/
theorem waited_le (h : Course p m addition results waits a) (c : FailureClass) :
    (a.begin.budget c).waited ≤ a.begin.waited := by
  rw [budget_begin, h.books.waited]
  show waitedIn c waits ≤ a.waited
  rw [h.books.total]
  exact waitedIn_le c waits

end Course

/-- Where a run comes to an end that starts in the middle of a course: with a record that continues
the course, or lost because the next attempt has no number or the next wait leaves the range of
durations. -/
def Follows (p : RetryPolicy) (m : Method) (addition : Nat → Duration)
    (results : Nat → Except FetchError α) (waits : List Wait) (a : Account) (more : List Wait)
    (b : Account) (record : Option (Record α)) : Prop :=
  Course p m addition results (waits ++ more) b
    ∧ match record with
      | some r => r.observed.map Observation.wait = more ∧ r.calls.length ≤ more.length + 1
          ∧ r.outcome.attempts = a.attempts + r.calls.length
      | none => b.full = true ∨ ∃ error, results b.begin.attempts = .error error
          ∧ Overflows p (addition b.begin.attempts) b.begin error

/-- **Every run follows its course to the end.** -/
theorem runFrom_follows (cancelAt : Option Duration) {operation : Nat → Attempt α} (now : Duration)
    {waits : List Wait} {a : Account}
    (h : Course p m addition (fun n => (operation n).result) waits a) :
    ∃ more b, Follows p m addition (fun n => (operation n).result) waits a more b
      (runFrom p m cancelAt addition operation now a) := by
  have stays : Course p m addition (fun n => (operation n).result) (waits ++ []) a := by
    rw [List.append_nil]
    exact h
  -- along the run: it stops here in all cases but the last, in the one before it in the middle of a
  -- wait, and in the last the course is longer by one retry
  fun_induction runFrom p m cancelAt addition operation now a generalizing waits with
  | case1 now a hcancelled => exact ⟨[], a, stays, rfl, Nat.zero_le _, rfl⟩
  | case2 now a hopen hfull => exact ⟨[], a, stays, Or.inl hfull⟩
  | case3 now a hopen hroom b attempt due t => exact ⟨[], a, stays, rfl, Nat.le_refl _, rfl⟩
  | case4 now a hopen hroom b attempt due hdue =>
      rename_i hturn
      exact ⟨[], a, stays, Or.inr (settle_none h.waited_le hturn)⟩
  | case5 now a hopen hroom b attempt due hdue outcome hturn =>
      exact ⟨[], a, stays, rfl, Nat.le_refl _, settle_finished hturn⟩
  | case6 now a hopen hroom b attempt due hdue cls delay c hturn log seen wake t =>
      have hnext := h.retry hturn
      refine ⟨[⟨cls, delay⟩], c, hnext, rfl, Nat.le_succ _, ?_⟩
      show c.attempts = a.attempts + 1
      rw [hnext.books.attempts, h.books.attempts, List.length_append]
      rfl
  | case7 now a hopen hroom b attempt due hdue cls delay c hturn log seen wake hwake =>
      rename_i ih
      have hnext := h.retry hturn
      have hattempts : c.attempts = a.attempts + 1 := by
        rw [hnext.books.attempts, h.books.attempts, List.length_append]
        rfl
      obtain ⟨more, d, hcourse, hend⟩ := ih hnext (by rw [List.append_nil]; exact hnext)
      refine ⟨⟨cls, delay⟩ :: more, d, ?_, ?_⟩
      · rw [List.append_assoc] at hcourse
        exact hcourse
      · cases hrest : runFrom p m cancelAt addition operation wake c with
        | none =>
            rw [hrest] at hend
            exact hend
        | some r =>
            rw [hrest] at hend
            obtain ⟨hobserved, hcalls, hcount⟩ := hend
            refine ⟨?_, ?_, ?_⟩
            · show seen.wait :: r.observed.map Observation.wait = _
              rw [hobserved]
              rfl
            · show r.calls.length + 1 ≤ more.length + 1 + 1
              omega
            · show r.outcome.attempts = a.attempts + (r.calls.length + 1)
              omega

/-- **Retrying is bounded, and keeps to every budget at every moment.** Whatever the attempts of an
operation come to, its retries follow a course of at most four times the retries of one class. Each
part of the course from its start keeps to the number of retries and to the total wait of each
class. A run ends with a record of that course and at most one attempt more; only if there is no number
left for the next attempt, or the next wait leaves the range of durations, there is no record. -/
theorem retries_within_budgets (p : RetryPolicy) (m : Method) (cancelAt : Option Duration)
    (addition : Nat → Duration) (operation : Nat → Attempt α) :
    ∃ waits a, Course p m addition (fun n => (operation n).result) waits a
      ∧ waits.length ≤ 4 * p.maxRetries
      ∧ (∀ n c, retriesIn c (waits.take n) ≤ p.maxRetries)
      ∧ (∀ n, waitedIn .temporarilyUnavailable (waits.take n) ≤ p.unavailableTimeout
          ∧ waitedIn .rateLimited (waits.take n) ≤ p.rateLimitTimeout)
      ∧ match run p m cancelAt addition operation with
        | some r => r.observed.map Observation.wait = waits
            ∧ r.calls.length ≤ 1 + 4 * p.maxRetries ∧ r.outcome.attempts = r.calls.length
        | none => a.begin.attempts ≤ 1 + 4 * p.maxRetries
            ∧ (a.full = true ∨ ∃ error, (operation a.begin.attempts).result = .error error
              ∧ Overflows p (addition a.begin.attempts) a.begin error) := by
  have hstart : Course p m addition (fun n => (operation n).result) [] {} := .start
  obtain ⟨waits, a, hcourse, hend⟩ := runFrom_follows cancelAt .zero hstart
  rw [List.nil_append] at hcourse
  have hwithin := hcourse.within
  refine ⟨waits, a, hcourse, hwithin.length_le, fun n c => (hwithin.take n).retries c,
    fun n => ⟨(hwithin.take n).waited rfl, (hwithin.take n).waited rfl⟩, ?_⟩
  rw [run]
  cases hrun : runFrom p m cancelAt addition operation .zero {} with
  | none =>
      rw [hrun] at hend
      have hattempts : a.begin.attempts = waits.length + 1 :=
        congrArg (· + 1) hcourse.books.attempts
      have hlength := hwithin.length_le
      exact ⟨by omega, hend⟩
  | some r =>
      rw [hrun] at hend
      obtain ⟨hobserved, hcalls, hcount⟩ := hend
      have hlength := hwithin.length_le
      refine ⟨hobserved, by omega, ?_⟩
      rw [hcount]
      exact Nat.zero_add _

end

end ResultChunks.Retry
