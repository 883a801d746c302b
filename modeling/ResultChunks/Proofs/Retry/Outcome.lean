import Mathlib.Data.List.Induction
import ResultChunks.Proofs.Retry.Sequence

/-!
# What a retried operation reports

A run that is not cancelled is described here without its account. `Granted` says which waits its
attempts come to when sums of waits are exact, and `Reports` what its record then holds. All exits of
the loop report the same numbers, since the account that they take them from is up to date with the
waits (`Books`). What one attempt comes to is `Books.leads`; a run is the induction over it, and it
has a record exactly if every attempt on its way has a number and every sum is in the range of
durations.
-/

namespace ResultChunks.Retry

open RetryPolicy

variable {α : Type} {p : RetryPolicy} {m : Method} {addition : Nat → Duration}
  {operation : Nat → Attempt α} {results : Nat → Except FetchError α} {waits : List Wait}
  {a : Account}

/-- The failure of the attempt after some waits. -/
def failureAfter (addition : Nat → Duration) (waits : List Wait) (error : FetchError) : Failure :=
  ⟨error, waits.length + 1, addition (waits.length + 1)⟩

/-- Every wait was granted to the failure of the attempt before it. -/
def Granted (p : RetryPolicy) (m : Method) (addition : Nat → Duration)
    (results : Nat → Except FetchError α) (waits : List Wait) : Prop :=
  ∀ (i : Nat) (w : Wait), waits[i]? = some w → ∃ error, results (i + 1) = .error error
    ∧ p.granted m (waits.take i) (failureAfter addition (waits.take i) error) = some w

/-- From some waits on, the sums that are formed to settle the failures of an operation are in the
range of durations. -/
def SumsInRange (p : RetryPolicy) (m : Method) (addition : Nat → Duration)
    (results : Nat → Except FetchError α) (before : List Wait) : Prop :=
  ∀ waits error, before <+: waits → Granted p m addition results waits →
    results (waits.length + 1) = .error error →
      ∀ t ∈ p.sums m waits (failureAfter addition waits error), t.InRange

/-- From some waits on, every attempt that an operation comes to has a number. -/
def AttemptsInRange (p : RetryPolicy) (m : Method) (addition : Nat → Duration)
    (results : Nat → Except FetchError α) (before : List Wait) : Prop :=
  ∀ waits, before <+: waits → Granted p m addition results waits → waits.length + 1 < attemptLimit

/-- Errors that another attempt cannot mend: a payload that is bad itself, a request that cannot be
made, and refusals other than those of a busy or slow server. -/
inductive Lasting : FetchError → Prop where
  | corrupt {error : FetchError} : error.isCorruptPayload = true → Lasting error
  | request (text : String) : Lasting (.request text)
  | refused {status : Nat} (wait : Option Duration) (body : String) : 400 ≤ status → status < 500 →
      status ≠ 408 → status ≠ 429 → Lasting (.http status wait body)

/-- What is reported once an attempt after some waits has come to a result and is the last one. -/
structure Concludes (p : RetryPolicy) (m : Method) (addition : Nat → Duration) (waits : List Wait)
    (result : Except FetchError α) (o : Outcome α) : Prop where
  /-- There was one attempt more than waits. -/
  attempts : o.attempts = waits.length + 1
  /-- The time waited is the sum of the waits. -/
  waited : o.waited = waitedInAll waits
  /-- A value is the result of the operation. -/
  value : ∀ v, result = .ok v → o.result = .ok v
  /-- So is an error that may not be retried. -/
  unchanged : ∀ error, result = .error error → m.mayRepeat = false ∨ p.classify error = none →
    o.result = .error error
  /-- Any other error is wrapped once, with its class, the attempts and what its class has waited. -/
  wrapped : ∀ error cls, result = .error error → m.mayRepeat = true → p.classify error = some cls →
    o.result = .error (.budgetExhausted cls (waits.length + 1) (waitedIn cls waits) error)
  /-- No wait is granted to the error. -/
  stopped : ∀ error, result = .error error →
    p.granted m waits (failureAfter addition waits error) = none

/-- The record of a run that begins its next attempt at a moment, with some waits behind it. -/
structure Reports (p : RetryPolicy) (m : Method) (addition : Nat → Duration)
    (operation : Nat → Attempt α) (before : List Wait) (now : Duration) (r : Record α) : Prop where
  /-- Attempts are numbered on without gaps, and there is one more than is observed. -/
  numbers : r.calls.map Prod.snd = List.range' (before.length + 1) (r.observed.length + 1)
  /-- Each of them but the last is observed, once and in order. -/
  observed : r.observed.map Observation.attempt = List.range' (before.length + 1) r.observed.length
  /-- What is observed is a failure that may be retried, with its class. -/
  failed : ∀ o ∈ r.observed, ∃ error, (operation o.attempt).result = .error error
    ∧ m.mayRepeat = true ∧ p.classify error = some o.cls ∧ ¬ Lasting error
  /-- The first attempt begins at the moment, and each later one when the wait that was observed
  before it is over. -/
  begun : r.calls.map Prod.fst = now :: r.observed.map fun o => wakeTime (o.time + o.delay)
  /-- A failure is observed as soon as its attempt ends, and the run ends with the last one. -/
  ended : (r.calls.map fun c => wakeTime (c.1 + (operation c.2).took)) =
    r.observed.map Observation.time ++ [r.finish]
  /-- The waits are those that the policy grants. -/
  granted : Granted p m addition (fun n => (operation n).result)
    (before ++ r.observed.map Observation.wait)
  /-- The outcome is what the last attempt comes to after all of them. -/
  outcome : Concludes p m addition (before ++ r.observed.map Observation.wait)
    (operation r.outcome.attempts).result r.outcome

/-- What an attempt after some waits leads to when it has come to its result. -/
inductive Leads (p : RetryPolicy) (m : Method) (addition : Nat → Duration)
    (results : Nat → Except FetchError α) (waits : List Wait) : Option (Turn α) → Prop where
  /-- It is the last one. -/
  | last {o : Outcome α} : Concludes p m addition waits (results (waits.length + 1)) o →
      (∀ error, results (waits.length + 1) = .error error →
        ∀ t ∈ p.sums m waits (failureAfter addition waits error), t.InRange) →
      Leads p m addition results waits (some (.finished o))
  /-- It failed, and the wait that is granted to it is made and entered into the books. -/
  | again {error : FetchError} {w : Wait} {b : Account} :
      results (waits.length + 1) = .error error →
      p.granted m waits (failureAfter addition waits error) = some w →
      (∀ t ∈ p.sums m waits (failureAfter addition waits error), t.InRange) →
      Books (waits ++ [w]) b → Leads p m addition results waits (some (.pause w.cls w.delay b))
  /-- It failed, and a sum that is formed to settle it is out of range. -/
  | lost {error : FetchError} {t : Duration} : results (waits.length + 1) = .error error →
      t ∈ p.sums m waits (failureAfter addition waits error) → ¬ t.InRange →
      Leads p m addition results waits none

/-! ## Granted waits -/

theorem granted_nil : Granted p m addition results [] := by
  intro i w h
  cases h

/-- One more wait that is granted. -/
theorem Granted.concat (h : Granted p m addition results waits) {error : FetchError} {w : Wait}
    (herror : results (waits.length + 1) = .error error)
    (hw : p.granted m waits (failureAfter addition waits error) = some w) :
    Granted p m addition results (waits ++ [w]) := by
  intro i v hv
  rcases Nat.lt_trichotomy i waits.length with hlt | rfl | hgt
  · rw [List.getElem?_append_left hlt] at hv
    rw [List.take_append_of_le_length (Nat.le_of_lt hlt)]
    exact h i v hv
  · rw [List.getElem?_concat_length] at hv
    obtain rfl := Option.some.inj hv
    rw [List.take_append_of_le_length (Nat.le_refl _), List.take_length]
    exact ⟨error, herror, hw⟩
  · rw [List.getElem?_eq_none (by simp; omega)] at hv
    cases hv

/-- A wait is the one that is granted to the failure before it. -/
theorem Granted.next {w : Wait} {more : List Wait}
    (h : Granted p m addition results (waits ++ w :: more)) :
    ∃ error, results (waits.length + 1) = .error error
      ∧ p.granted m waits (failureAfter addition waits error) = some w := by
  have hnext := h waits.length w (by rw [List.getElem?_append_right (Nat.le_refl _), Nat.sub_self]; rfl)
  rwa [List.take_left] at hnext

/-- No wait follows a failure that none is granted to. -/
theorem Granted.eq_of_stopped {longer : List Wait} (h : Granted p m addition results longer)
    (hfront : waits <+: longer) (hstop : ∀ error, results (waits.length + 1) = .error error →
      p.granted m waits (failureAfter addition waits error) = none) : longer = waits := by
  obtain ⟨more, rfl⟩ := hfront
  cases more with
  | nil => exact List.append_nil _
  | cons w more =>
      obtain ⟨error, herror, hw⟩ := h.next
      rw [hstop error herror] at hw
      cases hw

/-- The only wait that can follow a failure is the one that is granted to it. -/
theorem Granted.eq_or_prefix {longer : List Wait} {error : FetchError} {w : Wait}
    (h : Granted p m addition results longer) (hfront : waits <+: longer)
    (herror : results (waits.length + 1) = .error error)
    (hw : p.granted m waits (failureAfter addition waits error) = some w) :
    longer = waits ∨ waits ++ [w] <+: longer := by
  obtain ⟨more, rfl⟩ := hfront
  cases more with
  | nil => exact Or.inl (List.append_nil _)
  | cons v more =>
      obtain ⟨error', herror', hv⟩ := h.next
      obtain rfl := Except.error.inj (herror.symm.trans herror')
      obtain rfl := Option.some.inj (hw.symm.trans hv)
      exact Or.inr ⟨more, by rw [List.append_assoc]; rfl⟩

/-- What each wait keeps that is granted, all of them keep. -/
theorem Granted.keeps {P : List Wait → Prop} (h : Granted p m addition results waits) (hnil : P [])
    (hstep : ∀ waits error, P waits → results (waits.length + 1) = .error error →
      P (p.waitsWith m waits (failureAfter addition waits error))) : P waits := by
  induction waits using List.reverseRecOn with
  | nil => exact hnil
  | append_singleton waits w ih =>
      obtain ⟨error, herror, hw⟩ := h.next
      have hbefore : Granted p m addition results waits := by
        intro i v hv
        obtain ⟨hlt, -⟩ := List.getElem?_eq_some_iff.1 hv
        have hgranted := h i v (by rw [List.getElem?_append_left hlt, hv])
        rwa [List.take_append_of_le_length (Nat.le_of_lt hlt)] at hgranted
      rw [← waitsWith_of_some hw]
      exact hstep waits error (ih hbefore) herror

theorem Granted.within (h : Granted p m addition results waits) : Within p waits :=
  h.keeps (.nil p) fun _ _ hwithin _ => waitsWith_within hwithin _

theorem Granted.short {longest : Duration} (h : Granted p m addition results waits)
    (hshort : ∀ n error b, results n = .error error → p.delayFor (addition n) b error ≤ longest) :
    Short longest waits :=
  h.keeps (List.forall_mem_nil _) fun _ _ hwaits herror =>
    hwaits.waitsWith fun _ => hshort _ _ _ herror

/-- An error that lasts is of no class. -/
theorem Lasting.classify_eq_none {error : FetchError} (h : Lasting error) : p.classify error = none := by
  cases h with
  | corrupt h =>
      cases error <;> first | rfl | cases h
  | request text => rfl
  | refused wait body hlow hhigh h408 h429 =>
      rename_i status
      have h503 : status ≠ 503 := by omega
      have hserver : (500 ≤ status && status < 600) = false := by
        simp
        omega
      simp [classify, h408, h429, h503, hserver]

/-! ## One attempt -/

/-- The class of a failure that a wait is granted to. -/
theorem of_granted {error : FetchError} {w : Wait}
    (h : p.granted m waits (failureAfter addition waits error) = some w) :
    m.mayRepeat = true ∧ p.classify error = some w.cls ∧ ¬ Lasting error := by
  obtain ⟨hasked, -⟩ := Option.filter_eq_some_iff.1 h
  obtain ⟨hclass, -, -⟩ := asked_eq_some hasked
  unfold classOf at hclass
  split at hclass
  · rename_i hm
    have hcls : p.classify error = some w.cls := hclass
    exact ⟨hm, hcls, fun hlasting => by rw [hlasting.classify_eq_none] at hcls; cases hcls⟩
  · cases hclass

/-- What a decision leads to. -/
def turnOf {α : Type} : Decision × Account → Turn α
  | (.giveUp reported, b) => .finished ⟨.error reported, b.attempts, b.waited⟩
  | (.retry cls delay, b) => .pause cls delay b

/-- A failure is settled as it is decided; a cancelled attempt is no exception. -/
theorem settle_error (extra : Duration) (error : FetchError) :
    settle (α := α) p m extra a (.error error) = (p.decide m extra a error).map turnOf := by
  -- `settle` does not ask for a decision on a cancelled attempt, but it would be to give up
  by_cases hcancelled : error = .cancelled
  · subst hcancelled
    have hgiveUp : p.decide m extra a .cancelled = some (.giveUp .cancelled, a) := by
      unfold RetryPolicy.decide
      split <;> rfl
    rw [hgiveUp]
    rfl
  · unfold settle
    split
    · rename_i h
      cases h
    · rename_i h
      exact absurd (Except.error.inj h) hcancelled
    · rename_i error' _ h
      obtain rfl := Except.error.inj h
      cases p.decide m extra a error with
      | none => rfl
      | some d =>
          obtain ⟨d, b⟩ := d
          cases d <;> rfl

section

variable {error : FetchError}

/-- An attempt is counted before it is made. -/
theorem Books.attempts_begin (h : Books waits a) : a.begin.attempts = waits.length + 1 :=
  congrArg (· + 1) h.attempts

theorem Books.decideOne_eq (h : Books waits a) (error : FetchError) :
    p.decideOne m a.begin (failureAfter addition waits error) =
      p.decide m (addition (waits.length + 1)) a.begin error := by
  have hnumber : a.begin.numbered (waits.length + 1) = a.begin := by
    rw [← h.attempts_begin]
    rfl
  exact congrArg (fun b => p.decide m (addition (waits.length + 1)) b error) hnumber

/-- A failure that a wait is granted to leads to this wait, which is then in the books. -/
theorem Books.settle_granted (h : Books waits a) {w : Wait}
    (hrange : ∀ t ∈ p.sums m waits (failureAfter addition waits error), t.InRange)
    (hw : p.granted m waits (failureAfter addition waits error) = some w) :
    ∃ b, settle (α := α) p m (addition (waits.length + 1)) a.begin (.error error) =
        some (.pause w.cls w.delay b)
      ∧ Books (waits ++ [w]) b := by
  obtain ⟨b, hdecide, -⟩ := h.ledger.decideOne_of_inRange hrange
  rw [h.decideOne_eq, verdict_of_some hw] at hdecide
  refine ⟨b, ?_, h.retry hdecide⟩
  rw [settle_error, hdecide]
  rfl

/-- A failure that no wait is granted to is reported. -/
theorem Books.settle_refused (h : Books waits a)
    (hrange : ∀ t ∈ p.sums m waits (failureAfter addition waits error), t.InRange)
    (hnone : p.granted m waits (failureAfter addition waits error) = none) :
    settle (α := α) p m (addition (waits.length + 1)) a.begin (.error error) =
      some (.finished ⟨.error (p.refusal m waits (failureAfter addition waits error)),
        waits.length + 1, waitedInAll waits⟩) := by
  obtain ⟨b, hdecide, -⟩ := h.ledger.decideOne_of_inRange hrange
  rw [h.decideOne_eq, verdict_of_none hnone] at hdecide
  have hsame : b = a.begin := decide_giveUp hdecide
  have htotal : a.begin.waited = waitedInAll waits := h.total
  rw [settle_error, hdecide, hsame, ← h.attempts_begin, ← htotal]
  rfl

/-- A failure is not settled if one of its sums is out of range. -/
theorem Books.settle_lost (h : Books waits a) {t : Duration}
    (ht : t ∈ p.sums m waits (failureAfter addition waits error)) (hrange : ¬ t.InRange) :
    settle (α := α) p m (addition (waits.length + 1)) a.begin (.error error) = none := by
  have hdecide := h.ledger.decideOne_of_not_inRange ht hrange
  rw [h.decideOne_eq] at hdecide
  rw [settle_error, hdecide]
  rfl

/-- The outcome of an attempt that succeeds. -/
theorem concludes_ok (v : α) :
    Concludes p m addition waits (.ok v) ⟨.ok v, waits.length + 1, waitedInAll waits⟩ where
  attempts := rfl
  waited := rfl
  value := by
    intro v' h
    exact h
  unchanged := by
    intro error h
    cases h
  wrapped := by
    intro error cls h
    cases h
  stopped := by
    intro error h
    cases h

/-- The outcome of a failure that no wait is granted to. -/
theorem concludes_refused
    (hnone : p.granted m waits (failureAfter addition waits error) = none) :
    Concludes (α := α) p m addition waits (.error error)
      ⟨.error (p.refusal m waits (failureAfter addition waits error)), waits.length + 1,
        waitedInAll waits⟩ where
  attempts := rfl
  waited := rfl
  value := by
    intro v h
    cases h
  unchanged := by
    intro error' h hfinal
    obtain rfl := Except.error.inj h
    have hclass : p.classOf m (failureAfter addition waits error) = none := by
      unfold classOf
      rcases hfinal with hm | hcls
      · rw [hm]
        rfl
      · split
        · exact hcls
        · rfl
    rw [refusal, hclass]
    rfl
  wrapped := by
    intro error' cls h hm hcls
    obtain rfl := Except.error.inj h
    have hclass : p.classOf m (failureAfter addition waits error) = some cls := by
      rw [classOf, if_pos hm]
      exact hcls
    rw [refusal, hclass]
    rfl
  stopped := by
    intro error' h
    obtain rfl := Except.error.inj h
    exact hnone

/-- **What an attempt leads to**, told without the account. -/
theorem Books.leads (h : Books waits a) : Leads p m addition results waits
    (settle p m (addition a.begin.attempts) a.begin (results a.begin.attempts)) := by
  rw [h.attempts_begin]
  cases hresult : results (waits.length + 1) with
  | ok v =>
      have hturn : settle p m (addition (waits.length + 1)) a.begin (.ok v) =
          some (.finished ⟨.ok v, waits.length + 1, waitedInAll waits⟩) := by
        rw [← h.attempts, ← h.total]
        rfl
      rw [hturn]
      refine .last (by rw [hresult]; exact concludes_ok v) ?_
      intro error herror
      cases hresult.symm.trans herror
  | error error =>
      by_cases hrange : ∀ t ∈ p.sums m waits (failureAfter addition waits error), t.InRange
      · cases hgranted : p.granted m waits (failureAfter addition waits error) with
        | none =>
            rw [h.settle_refused hrange hgranted]
            refine .last (by rw [hresult]; exact concludes_refused hgranted) ?_
            intro error' herror
            obtain rfl := Except.error.inj (hresult.symm.trans herror)
            exact hrange
        | some w =>
            obtain ⟨b, hturn, hbooks⟩ := h.settle_granted hrange hgranted
            rw [hturn]
            exact .again hresult hgranted hrange hbooks
      · obtain ⟨t, ht, hout⟩ : ∃ t ∈ p.sums m waits (failureAfter addition waits error),
            ¬ t.InRange := by
          simpa only [not_forall, exists_prop] using hrange
        rw [h.settle_lost ht hout]
        exact .lost hresult ht hout

end

/-! ## The whole run -/

/-- A run that ends with its next attempt. -/
theorem Reports.last (hgranted : Granted p m addition (fun n => (operation n).result) waits)
    {o : Outcome α} (ho : Concludes p m addition waits (operation (waits.length + 1)).result o)
    (now : Duration) (log : List Log.Entry) :
    Reports p m addition operation waits now
      ((Record.ending o (wakeTime (now + (operation (waits.length + 1)).took)) log).addCall now
        (waits.length + 1)) where
  numbers := rfl
  observed := rfl
  failed := by
    intro o ho
    cases ho
  begun := rfl
  ended := rfl
  granted := by
    show Granted p m addition _ (waits ++ [])
    rw [List.append_nil]
    exact hgranted
  outcome := by
    show Concludes p m addition (waits ++ []) (operation o.attempts).result o
    rw [List.append_nil, ho.attempts]
    exact ho

/-- A run whose next attempt fails and is retried. -/
theorem Reports.retry {error : FetchError} {w : Wait} {now : Duration} {r : Record α}
    (herror : (operation (waits.length + 1)).result = .error error)
    (hw : p.granted m waits (failureAfter addition waits error) = some w)
    {due : Duration} (hdue : due = wakeTime (now + (operation (waits.length + 1)).took))
    (h : Reports p m addition operation (waits ++ [w]) (wakeTime (due + w.delay)) r)
    (log : List Log.Entry) :
    Reports p m addition operation waits now
      ((r.addRetry ⟨due, w.cls, waits.length + 1, w.delay⟩ log).addCall now (waits.length + 1)) := by
  have hlength : (waits ++ [w]).length + 1 = waits.length + 1 + 1 := by
    rw [List.length_append]
    rfl
  have hsnoc : waits ++ (w :: r.observed.map Observation.wait) =
      waits ++ [w] ++ r.observed.map Observation.wait := by
    rw [List.append_assoc]
    rfl
  -- the record begins with this attempt and its wait, and goes on as that of the rest
  constructor
  · show (waits.length + 1) :: r.calls.map Prod.snd = _
    rw [h.numbers, hlength]
    rfl
  · show (waits.length + 1) :: r.observed.map Observation.attempt = _
    rw [h.observed, hlength]
    rfl
  · intro o ho
    rcases List.mem_cons.1 ho with rfl | ho
    · exact ⟨error, herror, of_granted hw⟩
    · exact h.failed o ho
  · show now :: r.calls.map Prod.fst = _
    rw [h.begun]
    rfl
  · show wakeTime (now + (operation (waits.length + 1)).took) :: r.calls.map _ = _
    rw [h.ended, ← hdue]
    rfl
  · show Granted p m addition _ (waits ++ (w :: r.observed.map Observation.wait))
    rw [hsnoc]
    exact h.granted
  · show Concludes p m addition (waits ++ (w :: r.observed.map Observation.wait)) _ _
    rw [hsnoc]
    exact h.outcome

/-- Every attempt from here on has a number and every sum is in range. -/
def RunInRange (p : RetryPolicy) (m : Method) (addition : Nat → Duration)
    (results : Nat → Except FetchError α) (before : List Wait) : Prop :=
  SumsInRange p m addition results before ∧ AttemptsInRange p m addition results before

/-- After an attempt that is the last one, no sum is formed and none is counted. -/
theorem Concludes.runInRange {o : Outcome α}
    (ho : Concludes p m addition waits (results (waits.length + 1)) o)
    (hroom : waits.length + 1 < attemptLimit)
    (hrange : ∀ error, results (waits.length + 1) = .error error →
      ∀ t ∈ p.sums m waits (failureAfter addition waits error), t.InRange) :
    RunInRange p m addition results waits := by
  constructor
  · intro longer error hfront hgranted
    obtain rfl := hgranted.eq_of_stopped hfront ho.stopped
    exact hrange error
  · intro longer hfront hgranted
    obtain rfl := hgranted.eq_of_stopped hfront ho.stopped
    exact hroom

/-- After a failure that is settled, it is the later attempts and sums that decide. -/
theorem runInRange_retry_iff {error : FetchError} {w : Wait}
    (herror : results (waits.length + 1) = .error error)
    (hw : p.granted m waits (failureAfter addition waits error) = some w)
    (hroom : waits.length + 1 < attemptLimit)
    (hrange : ∀ t ∈ p.sums m waits (failureAfter addition waits error), t.InRange) :
    RunInRange p m addition results waits ↔ RunInRange p m addition results (waits ++ [w]) := by
  have hstep : waits <+: waits ++ [w] := List.prefix_append waits [w]
  constructor
  · rintro ⟨hsums, hattempts⟩
    exact ⟨fun longer error' hfront => hsums longer error' (hstep.trans hfront),
      fun longer hfront => hattempts longer (hstep.trans hfront)⟩
  · rintro ⟨hsums, hattempts⟩
    constructor
    · intro longer error' hfront hgranted herror'
      rcases hgranted.eq_or_prefix hfront herror hw with rfl | hlonger
      · obtain rfl := Except.error.inj (herror.symm.trans herror')
        exact hrange
      · exact hsums longer error' hlonger hgranted herror'
    · intro longer hfront hgranted
      rcases hgranted.eq_or_prefix hfront herror hw with rfl | hlonger
      · exact hroom
      · exact hattempts longer hlonger hgranted

/-- There is a number for the next attempt exactly if it is below the limit. -/
theorem Books.full_iff (h : Books waits a) : a.full = true ↔ ¬ waits.length + 1 < attemptLimit := by
  rw [Account.full, h.attempts, decide_eq_true_iff, Nat.not_lt]

/-- **A run has a record exactly if its attempts and sums are in range, and the record reports what
happened.** -/
theorem runFrom_cases (hgranted : Granted p m addition (fun n => (operation n).result) waits)
    (hbooks : Books waits a) (now : Duration) :
    (RunInRange p m addition (fun n => (operation n).result) waits
        ∧ ∃ r, runFrom p m none addition operation now a = some r
          ∧ Reports p m addition operation waits now r)
      ∨ (¬ RunInRange p m addition (fun n => (operation n).result) waits
        ∧ runFrom p m none addition operation now a = none) := by
  -- along the run: without a cancellation it goes on until an attempt is the last one or is lost
  fun_induction runFrom p m none addition operation now a generalizing waits with
  | case1 now a hcancelled => cases hcancelled
  | case3 now a hopen hroom b attempt due t =>
      rename_i hcancelled
      cases hcancelled
  | case6 now a hopen hroom b attempt due hdue cls delay c hturn log seen wake t =>
      rename_i hcancelled
      cases hcancelled
  | case2 now a hopen hfull =>
      exact .inr ⟨fun hrange => hbooks.full_iff.1 hfull (hrange.2 _ List.prefix_rfl hgranted), rfl⟩
  | case4 now a hopen hroom b attempt due hdue =>
      rename_i hturn
      have hleads : Leads p m addition (fun n => (operation n).result) waits
        (settle p m (addition b.attempts) b attempt.result) := hbooks.leads
      rw [hturn] at hleads
      cases hleads with
      | lost herror ht hout =>
          exact .inr ⟨fun hrange => hout (hrange.1 _ _ List.prefix_rfl hgranted herror _ ht), rfl⟩
  | case5 now a hopen hroom b attempt due hdue outcome hturn =>
      have hleads : Leads p m addition (fun n => (operation n).result) waits
        (settle p m (addition b.attempts) b attempt.result) := hbooks.leads
      have hnumber : b.attempts = waits.length + 1 := hbooks.attempts_begin
      have hcount : waits.length + 1 < attemptLimit :=
        not_not.1 fun hno => hroom (hbooks.full_iff.2 hno)
      rw [hturn] at hleads
      cases hleads with
      | last ho hrange =>
          refine .inl ⟨ho.runInRange hcount hrange, _, rfl, ?_⟩
          have hlast := Reports.last hgranted ho now
          rw [← hnumber] at hlast
          exact hlast _
  | case7 now a hopen hroom b attempt due hdue cls delay c hturn log seen wake hwake =>
      rename_i ih
      have hleads : Leads p m addition (fun n => (operation n).result) waits
        (settle p m (addition b.attempts) b attempt.result) := hbooks.leads
      have hnumber : b.attempts = waits.length + 1 := hbooks.attempts_begin
      have hcount : waits.length + 1 < attemptLimit :=
        not_not.1 fun hno => hroom (hbooks.full_iff.2 hno)
      rw [hturn] at hleads
      cases hleads with
      | again herror hw hrange hnext =>
          rename_i error w
          rw [runInRange_retry_iff herror hw hcount hrange]
          rcases ih (hgranted.concat herror hw) hnext with ⟨hlater, r, hr, hreports⟩ | ⟨hlater, hr⟩
          · refine .inl ⟨hlater, _, congrArg (Option.map _) hr, ?_⟩
            have hretry := Reports.retry herror hw (by rw [← hnumber]) hreports
            rw [← hnumber] at hretry
            exact hretry _
          · exact .inr ⟨hlater, congrArg (Option.map _) hr⟩

/-- The outcome counts the attempts that were made. -/
theorem Reports.attempts {before : List Wait} {now : Duration} {r : Record α}
    (h : Reports p m addition operation before now r) :
    r.outcome.attempts = before.length + r.observed.length + 1 := by
  rw [h.outcome.attempts, List.length_append, List.length_map]

theorem run_cases (p : RetryPolicy) (m : Method) (addition : Nat → Duration)
    (operation : Nat → Attempt α) :
    (RunInRange p m addition (fun n => (operation n).result) []
        ∧ ∃ r, run p m none addition operation = some r
          ∧ Reports p m addition operation [] .zero r)
      ∨ (¬ RunInRange p m addition (fun n => (operation n).result) []
        ∧ run p m none addition operation = none) :=
  runFrom_cases granted_nil books_nil .zero

theorem exists_run_iff : (∃ r, run p m none addition operation = some r) ↔
    RunInRange p m addition (fun n => (operation n).result) [] := by
  rcases run_cases p m addition operation with ⟨hrange, r, hr, -⟩ | ⟨hout, hnone⟩
  · exact ⟨fun _ => hrange, fun _ => ⟨r, hr⟩⟩
  · constructor
    · rintro ⟨r, hr⟩
      cases hnone.symm.trans hr
    · exact fun hrange => absurd hrange hout

theorem reports_of_run {r : Record α} (h : run p m none addition operation = some r) :
    Reports p m addition operation [] .zero r := by
  rcases run_cases p m addition operation with ⟨-, r', hr', hreports⟩ | ⟨-, hnone⟩
  · obtain rfl := Option.some.inj (hr'.symm.trans h)
    exact hreports
  · cases hnone.symm.trans h

/-- No sum leaves the range unless a wait that is asked for is about that long itself. -/
theorem sumsInRange_of_short {longest : Duration}
    (hshort : ∀ n error b, results n = .error error → p.delayFor (addition n) b error ≤ longest)
    (hlimit : (4 * p.maxRetries + 1) * longest.nanos < Duration.limit) :
    SumsInRange p m addition results [] := by
  intro waits error _ hgranted herror t ht
  have hle : t.nanos ≤ (waits.length + 1) * longest.nanos :=
    (hgranted.short hshort).sums_le (fun _ => hshort _ _ _ herror) ht
  have hcount : (waits.length + 1) * longest.nanos ≤ (4 * p.maxRetries + 1) * longest.nanos :=
    Nat.mul_le_mul_right _ (Nat.succ_le_succ hgranted.within.length_le)
  exact Nat.lt_of_le_of_lt (Nat.le_trans hle hcount) hlimit

/-- No attempt is without a number if so many as the budgets allow all have one. -/
theorem attemptsInRange_of_few (hfew : 4 * p.maxRetries + 1 < attemptLimit) :
    AttemptsInRange p m addition results [] := by
  intro waits _ hgranted
  exact Nat.lt_of_le_of_lt (Nat.succ_le_succ hgranted.within.length_le) hfew

/-- **What a retried operation reports.** An operation that is not cancelled has a record exactly if
every sum of waits on its way is in the range of durations and every attempt that it comes to in that of
the numbers. The attempts in the record are 1, 2, …, n; all of them but the last are observed;
`Reports` says what the record has of each, of the waits and of the result; and n is below the limit of
the numbers, and at most four times the retries of one class and one. In particular there is a record
whenever so many attempts and so many of the longest wait asked for are in range together. -/
theorem operation_reported (p : RetryPolicy) (m : Method) (addition : Nat → Duration)
    (operation : Nat → Attempt α) :
    ((∃ r, run p m none addition operation = some r) ↔
        SumsInRange p m addition (fun n => (operation n).result) []
          ∧ AttemptsInRange p m addition (fun n => (operation n).result) [])
      ∧ (∀ r, run p m none addition operation = some r →
        r.calls.map Prod.snd = List.range' 1 r.outcome.attempts
          ∧ r.observed.map Observation.attempt = List.range' 1 (r.outcome.attempts - 1)
          ∧ Reports p m addition operation [] .zero r
          ∧ r.outcome.attempts < attemptLimit ∧ r.outcome.attempts ≤ 4 * p.maxRetries + 1)
      ∧ ∀ longest : Duration,
        (∀ n error b, (operation n).result = .error error →
          p.delayFor (addition n) b error ≤ longest) →
        (4 * p.maxRetries + 1) * longest.nanos < Duration.limit →
        4 * p.maxRetries + 1 < attemptLimit →
          ∃ r, run p m none addition operation = some r := by
  refine ⟨exists_run_iff, fun r hr => ?_, fun longest hshort hlimit hfew =>
    exists_run_iff.2 ⟨sumsInRange_of_short hshort hlimit, attemptsInRange_of_few hfew⟩⟩
  have hreports := reports_of_run hr
  have hattempts : r.outcome.attempts = r.observed.length + 1 := by
    rw [hreports.attempts, List.length_nil, Nat.zero_add]
  have hbound : r.observed.length ≤ 4 * p.maxRetries := by
    have hlength := hreports.granted.within.length_le
    rwa [List.nil_append, List.length_map] at hlength
  have hcount : r.outcome.attempts < attemptLimit := by
    have hroom := (exists_run_iff.1 ⟨r, hr⟩).2 _ (List.nil_prefix ..) hreports.granted
    rwa [hattempts, ← List.length_map Observation.wait]
  refine ⟨?_, ?_, hreports, hcount, by omega⟩
  · rw [hattempts]
    exact hreports.numbers
  · rw [hattempts]
    exact hreports.observed

namespace Sample

/-- The server is busy twice, and then answers. -/
def busyTwice (n : Nat) : Attempt Nat :=
  ⟨.zero, if n < 3 then .error (.http 503 none "") else .ok 7⟩

/-- The server limits the rate, and then asks for the longest wait. -/
def limitedForever (n : Nat) : Attempt Unit :=
  ⟨.zero, .error (.http 429 (if n = 1 then none else some forever) "")⟩

end Sample

/-- The waits are one second and two, and the third attempt begins after both. -/
example : (run Sample.steady .get none (fun _ => .zero) Sample.busyTwice).map (fun r =>
      (r.outcome.waited, r.calls, r.observed)) =
    some (.ofSecs 3, [(.zero, 1), (.ofSecs 1, 2), (.ofSecs 3, 3)],
      [⟨.zero, .temporarilyUnavailable, 1, .ofSecs 1⟩,
        ⟨.ofSecs 1, .temporarilyUnavailable, 2, .ofSecs 2⟩]) := by
  decide +kernel

/-- **The longest wait after another one is not reported**: where exact sums have the error of the
second attempt wrapped, there is no record at all. -/
theorem unreported_limited_forever :
    Sample.steady.validate = .ok () ∧ Method.get.mayRepeat = true
      ∧ (Sample.limitedForever 1).result = .error (.http 429 none "")
      ∧ (Sample.limitedForever 2).result = .error (.http 429 (some Sample.forever) "")
      ∧ Sample.steady.verdicts .get []
          [⟨.http 429 none "", 1, .zero⟩, ⟨.http 429 (some Sample.forever) "", 2, .zero⟩] =
        [.retry .rateLimited (.ofSecs 1), .giveUp (.budgetExhausted .rateLimited 2 (.ofSecs 1)
          (.http 429 (some Sample.forever) ""))]
      ∧ run Sample.steady .get none (fun _ => .zero) Sample.limitedForever = none := by
  refine ⟨by decide +kernel, by decide, rfl, rfl, by decide +kernel, by decide +kernel⟩

end ResultChunks.Retry
