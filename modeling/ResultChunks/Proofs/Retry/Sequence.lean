import ResultChunks.Http.Header
import ResultChunks.Proofs.Retry.Course

/-!
# Failures settled one after another

`decideAll` settles any failures against one account. `verdicts` says what comes of them when sums
of waits are exact, and `sumsFormed` lists the sums that are formed on the way: that of the class
whenever it has retries left, and that of all classes whenever a wait is granted. The two agree as
long as every such sum is in the range of durations, and there is no decision from the first sum on
that is not (`decided_iff_sums_in_range`).
-/

namespace ResultChunks

open Retry

/-- A failure of an operation that may be repeated. -/
structure Retry.Failure where
  error : FetchError
  /-- The number of the attempt that failed. -/
  attempt : Nat
  /-- The random part of a wait after it. -/
  addition : Duration
deriving DecidableEq, Repr, Inhabited

/-- The account with the number of the attempt that failed. -/
def Retry.Account.numbered (a : Account) (n : Nat) : Account := { a with attempts := n }

namespace RetryPolicy

/-- Settle a failure. -/
def decideOne (p : RetryPolicy) (m : Method) (a : Account) (f : Failure) :
    Option (Decision × Account) :=
  p.decide m f.addition (a.numbered f.attempt) f.error

/-- Settle failures one after another against one account. -/
def decideAll (p : RetryPolicy) (m : Method) (a : Account) :
    List Failure → Option (List Decision × Account)
  | [] => some ([], a)
  | f :: fs => do
    let (d, b) ← p.decideOne m a f
    let (ds, c) ← p.decideAll m b fs
    some (d :: ds, c)

/-! ## Exact sums -/

/-- The class of a failure, if it may be retried by this method. -/
def classOf (p : RetryPolicy) (m : Method) (f : Failure) : Option FailureClass :=
  if m.mayRepeat then p.classify f.error else none

/-- The wait that a failure asks for, if its class has retries left. -/
def asked (p : RetryPolicy) (m : Method) (waits : List Wait) (f : Failure) : Option Wait :=
  match p.classOf m f with
  | some cls =>
    if retriesIn cls waits < p.maxRetries then
      some ⟨cls, p.delayFor f.addition (usedIn cls waits) f.error⟩
    else none
  | none => none

/-- A wait fits into what is left of the total wait of its class. -/
def fits (p : RetryPolicy) (waits : List Wait) (w : Wait) : Bool :=
  match p.timeBudget w.cls with
  | some limit => waitedIn w.cls waits + w.delay ≤ limit
  | none => true

/-- The wait that is granted to a failure. -/
def granted (p : RetryPolicy) (m : Method) (waits : List Wait) (f : Failure) : Option Wait :=
  (p.asked m waits f).filter (p.fits waits)

/-- What is reported of a failure that no wait is granted to. -/
def refusal (p : RetryPolicy) (m : Method) (waits : List Wait) (f : Failure) : FetchError :=
  match p.classOf m f with
  | some cls => .budgetExhausted cls f.attempt (waitedIn cls waits) f.error
  | none => f.error

/-- What follows a failure. -/
def verdict (p : RetryPolicy) (m : Method) (waits : List Wait) (f : Failure) : Decision :=
  match p.granted m waits f with
  | some w => .retry w.cls w.delay
  | none => .giveUp (p.refusal m waits f)

/-- The waits after one more failure. -/
def waitsWith (p : RetryPolicy) (m : Method) (waits : List Wait) (f : Failure) : List Wait :=
  waits ++ (p.granted m waits f).toList

/-- The waits after some failures. -/
def waitsAfter (p : RetryPolicy) (m : Method) (waits : List Wait) (fs : List Failure) : List Wait :=
  fs.foldl (p.waitsWith m) waits

/-- What follows each of some failures. -/
def verdicts (p : RetryPolicy) (m : Method) (waits : List Wait) : List Failure → List Decision
  | [] => []
  | f :: fs => p.verdict m waits f :: p.verdicts m (p.waitsWith m waits f) fs

/-- The sums that are formed to settle a failure. -/
def sums (p : RetryPolicy) (m : Method) (waits : List Wait) (f : Failure) : List Duration :=
  match p.asked m waits f with
  | some w =>
    (waitedIn w.cls waits + w.delay) ::
      if p.fits waits w then [waitedInAll waits + w.delay] else []
  | none => []

/-- The sums that are formed to settle some failures. -/
def sumsFormed (p : RetryPolicy) (m : Method) (waits : List Wait) : List Failure → List Duration
  | [] => []
  | f :: fs => p.sums m waits f ++ p.sumsFormed m (p.waitsWith m waits f) fs

end RetryPolicy

namespace Retry

open RetryPolicy

section

variable {p : RetryPolicy} {m : Method} {waits : List Wait} {a b : Account} {f : Failure}
  {cls : FailureClass} {w : Wait}

/-- The number of an attempt is in no budget. -/
theorem Ledger.attempts (h : Ledger waits a) (n : Nat) : Ledger waits (a.numbered n) where
  budgets := by intro c; rw [← h.budgets c]; cases c <;> rfl
  total := h.total

/-- **A wait that is entered keeps the budgets up to date**, and it is entered exactly if both of its
sums are in range. -/
theorem Ledger.charge (h : Ledger waits a) : (∃ b, charge? a w.cls w.delay = some b) ↔
    (waitedIn w.cls waits + w.delay).InRange ∧ (waitedInAll waits + w.delay).InRange := by
  have hb : (a.budget w.cls).waited = waitedIn w.cls waits := congrArg Budget.waited (h.budgets _)
  rw [← hb, ← h.total]
  constructor
  · rintro ⟨b, hcharge⟩
    obtain ⟨h₁, h₂, -⟩ := charge?_eq_some_iff.1 hcharge
    exact ⟨h₁, h₂⟩
  · rintro ⟨h₁, h₂⟩
    exact ⟨_, charge?_eq_some_iff.2 ⟨h₁, h₂, rfl⟩⟩

/-! ## One failure -/

theorem asked_eq_some (h : p.asked m waits f = some w) : p.classOf m f = some w.cls
    ∧ retriesIn w.cls waits < p.maxRetries
    ∧ w.delay = p.delayFor f.addition (usedIn w.cls waits) f.error := by
  unfold asked at h
  split at h
  · rename_i cls hcls
    split at h
    · rename_i hlt
      obtain rfl := Option.some.inj h
      exact ⟨hcls, hlt, rfl⟩
    · cases h
  · cases h

theorem granted_of_fits (h : p.asked m waits f = some w) (hfits : p.fits waits w = true) :
    p.granted m waits f = some w := by
  rw [granted, h, Option.filter_some, if_pos hfits]

theorem granted_of_not_fits (h : p.asked m waits f = some w) (hfits : p.fits waits w = false) :
    p.granted m waits f = none := by
  rw [granted, h, Option.filter_some, if_neg (by simp [hfits])]

theorem granted_of_not_asked (h : p.asked m waits f = none) : p.granted m waits f = none := by
  rw [granted, h, Option.filter_none]

theorem sums_of_asked (h : p.asked m waits f = some w) : p.sums m waits f =
    (waitedIn w.cls waits + w.delay) ::
      if p.fits waits w then [waitedInAll waits + w.delay] else [] := by
  rw [sums, h]

theorem sums_of_not_asked (h : p.asked m waits f = none) : p.sums m waits f = [] := by
  rw [sums, h]

theorem waitsWith_of_some (h : p.granted m waits f = some w) :
    p.waitsWith m waits f = waits ++ [w] := by
  rw [waitsWith, h]
  rfl

theorem waitsWith_of_none (h : p.granted m waits f = none) : p.waitsWith m waits f = waits := by
  rw [waitsWith, h]
  exact List.append_nil _

theorem decideOne_of_class (h : p.classOf m f = some cls) : p.decideOne m a f =
    p.decideClass f.addition (a.numbered f.attempt) cls f.error := by
  unfold classOf at h
  split at h
  · rename_i hm
    rw [decideOne, RetryPolicy.decide, if_neg (by simp [hm]), h]
  · cases h

theorem decideOne_of_no_class (h : p.classOf m f = none) :
    p.decideOne m a f = some (.giveUp f.error, a.numbered f.attempt) := by
  rw [decideOne, RetryPolicy.decide]
  unfold classOf at h
  split at h
  · rename_i hm
    rw [if_neg (by simp [hm]), h]
  · rename_i hm
    rw [if_pos (by simp [hm])]

/-- A failure that asks for no wait is reported. -/
theorem Ledger.decideOne_not_asked (h : Ledger waits a) (hasked : p.asked m waits f = none) :
    p.decideOne m a f = some (.giveUp (p.refusal m waits f), a.numbered f.attempt) := by
  cases hcls : p.classOf m f with
  | none => rw [decideOne_of_no_class hcls, refusal, hcls]
  | some cls =>
      have hbudget := (h.attempts f.attempt).budgets cls
      rw [decideOne_of_class hcls, decideClass, exhausted, refusal, hcls, hbudget]
      unfold asked at hasked
      rw [hcls] at hasked
      dsimp only at hasked
      split at hasked
      · cases hasked
      · rename_i hlt
        exact if_pos (Nat.le_of_not_lt hlt)

/-- A limit is compared with an exact sum, unless that is out of range. -/
theorem fits?_of_inRange (h : (waitedIn w.cls waits + w.delay).InRange) :
    p.fits? w.cls (waitedIn w.cls waits) w.delay = some (p.fits waits w) := by
  rw [fits?, fits]
  cases hlimit : p.timeBudget w.cls with
  | none => rfl
  | some limit =>
      dsimp only
      rw [Duration.add?, if_pos h]
      rfl

theorem fits?_of_not_inRange (h : ¬ (waitedIn w.cls waits + w.delay).InRange) :
    p.fits? w.cls (waitedIn w.cls waits) w.delay = none
      ∨ p.fits? w.cls (waitedIn w.cls waits) w.delay = some true := by
  rw [fits?]
  cases hlimit : p.timeBudget w.cls with
  | none => exact Or.inr rfl
  | some limit =>
      dsimp only
      rw [Duration.add?, if_neg h]
      exact Or.inl rfl

/-- A failure that asks for a wait is settled by the sum of its class and then by that of all
classes. -/
theorem Ledger.decideOne_asked (h : Ledger waits a) (hasked : p.asked m waits f = some w) :
    p.decideOne m a f =
      if (waitedIn w.cls waits + w.delay).InRange then
        if p.fits waits w then
          (charge? (a.numbered f.attempt) w.cls w.delay).map (.retry w.cls w.delay, ·)
        else some (.giveUp (p.refusal m waits f), a.numbered f.attempt)
      else none := by
  obtain ⟨hcls, hlt, hdelay⟩ := asked_eq_some hasked
  have hledger := h.attempts f.attempt
  have hspent : ¬ p.maxRetries ≤ (usedIn w.cls waits).retries := Nat.not_le_of_lt hlt
  have hwaited : (usedIn w.cls waits).waited = waitedIn w.cls waits := rfl
  rw [decideOne_of_class hcls, decideClass, exhausted, refusal, hcls, hledger.budgets]
  dsimp only
  rw [if_neg hspent, ← hdelay, hwaited]
  by_cases hrange : (waitedIn w.cls waits + w.delay).InRange
  · rw [if_pos hrange, fits?_of_inRange hrange]
    cases p.fits waits w <;> rfl
  · rw [if_neg hrange]
    have hnone : charge? (a.numbered f.attempt) w.cls w.delay = none :=
      Option.eq_none_iff_forall_ne_some.2 fun b hb => hrange (hledger.charge.1 ⟨b, hb⟩).1
    rcases fits?_of_not_inRange (p := p) hrange with hfits | hfits
    · rw [hfits]
    · rw [hfits, hnone]
      rfl

theorem verdict_of_some (h : p.granted m waits f = some w) :
    p.verdict m waits f = .retry w.cls w.delay := by
  rw [verdict, h]

theorem verdict_of_none (h : p.granted m waits f = none) :
    p.verdict m waits f = .giveUp (p.refusal m waits f) := by
  rw [verdict, h]

/-- **A failure is settled as with exact sums** if those are in range. -/
theorem Ledger.decideOne_of_inRange (h : Ledger waits a)
    (hrange : ∀ t ∈ p.sums m waits f, t.InRange) :
    ∃ b, p.decideOne m a f = some (p.verdict m waits f, b) ∧ Ledger (p.waitsWith m waits f) b := by
  have hledger := h.attempts f.attempt
  cases hasked : p.asked m waits f with
  | none =>
      have hnone := granted_of_not_asked hasked
      rw [verdict_of_none hnone, waitsWith_of_none hnone]
      exact ⟨_, h.decideOne_not_asked hasked, hledger⟩
  | some w =>
      rw [sums_of_asked hasked] at hrange
      have hclass := hrange _ List.mem_cons_self
      rw [h.decideOne_asked hasked, if_pos hclass]
      by_cases hfits : p.fits waits w = true
      · have hsome := granted_of_fits hasked hfits
        have htotal : (waitedInAll waits + w.delay).InRange :=
          hrange _ (List.mem_cons_of_mem _ (by rw [if_pos hfits]; exact List.mem_singleton_self _))
        obtain ⟨b, hb⟩ := hledger.charge.2 ⟨hclass, htotal⟩
        rw [if_pos hfits, hb, verdict_of_some hsome, waitsWith_of_some hsome]
        exact ⟨b, rfl, hledger.charged hb⟩
      · have hnone := granted_of_not_fits hasked (Bool.eq_false_iff.2 hfits)
        rw [if_neg hfits, verdict_of_none hnone, waitsWith_of_none hnone]
        exact ⟨_, rfl, hledger⟩

/-- There is no decision if one of the sums is out of range. -/
theorem Ledger.decideOne_of_not_inRange (h : Ledger waits a) {t : Duration}
    (ht : t ∈ p.sums m waits f) (hrange : ¬ t.InRange) : p.decideOne m a f = none := by
  cases hasked : p.asked m waits f with
  | none => rw [sums_of_not_asked hasked] at ht; cases ht
  | some w =>
      rw [sums_of_asked hasked] at ht
      rw [h.decideOne_asked hasked]
      by_cases hclass : (waitedIn w.cls waits + w.delay).InRange
      · rcases List.mem_cons.1 ht with rfl | ht
        · exact absurd hclass hrange
        by_cases hfits : p.fits waits w = true
        · rw [if_pos hfits] at ht
          obtain rfl := List.mem_singleton.1 ht
          have hnone : charge? (a.numbered f.attempt) w.cls w.delay = none :=
            Option.eq_none_iff_forall_ne_some.2 fun b hb =>
              hrange ((h.attempts f.attempt).charge.1 ⟨b, hb⟩).2
          rw [if_pos hclass, if_pos hfits, hnone]
          rfl
        · rw [if_neg hfits] at ht
          cases ht
      · exact if_neg hclass

/-! ## Any number of failures -/

variable {fs : List Failure}

theorem decideAll_cons {d : Decision} (h : p.decideOne m a f = some (d, b)) :
    p.decideAll m a (f :: fs) = (p.decideAll m b fs).map fun r => (d :: r.1, r.2) := by
  rw [decideAll, h, Option.bind_eq_bind, Option.bind_some]
  dsimp only
  cases p.decideAll m b fs <;> rfl

/-- **Failures are settled as with exact sums** if those are in range. -/
theorem Ledger.decideAll_of_inRange (h : Ledger waits a)
    (hrange : ∀ t ∈ p.sumsFormed m waits fs, t.InRange) :
    ∃ b, p.decideAll m a fs = some (p.verdicts m waits fs, b)
      ∧ Ledger (p.waitsAfter m waits fs) b := by
  induction fs generalizing waits a with
  | nil => exact ⟨a, rfl, h⟩
  | cons f fs ih =>
      rw [sumsFormed, List.forall_mem_append] at hrange
      obtain ⟨b, hone, hb⟩ := h.decideOne_of_inRange hrange.1
      obtain ⟨c, hall, hc⟩ := ih hb hrange.2
      refine ⟨c, ?_, hc⟩
      rw [decideAll_cons hone, hall]
      rfl

/-- There are no decisions if one of the sums is out of range. -/
theorem Ledger.decideAll_of_not_inRange (h : Ledger waits a) {t : Duration}
    (ht : t ∈ p.sumsFormed m waits fs) (hrange : ¬ t.InRange) : p.decideAll m a fs = none := by
  induction fs generalizing waits a with
  | nil => cases ht
  | cons f fs ih =>
      rw [sumsFormed, List.mem_append] at ht
      by_cases hfirst : ∀ t ∈ p.sums m waits f, t.InRange
      · obtain ⟨b, hone, hb⟩ := h.decideOne_of_inRange hfirst
        rw [decideAll_cons hone]
        rcases ht with ht | ht
        · exact absurd (hfirst t ht) hrange
        · rw [ih hb ht]
          rfl
      · obtain ⟨t', ht', hrange'⟩ : ∃ t ∈ p.sums m waits f, ¬ t.InRange := by
          simpa only [not_forall, exists_prop] using hfirst
        rw [decideAll, h.decideOne_of_not_inRange ht' hrange']
        rfl

/-- What was settled was settled as with exact sums, and those were in range. -/
theorem Ledger.of_decideAll (h : Ledger waits a) {ds : List Decision}
    (hall : p.decideAll m a fs = some (ds, b)) : (∀ t ∈ p.sumsFormed m waits fs, t.InRange)
      ∧ ds = p.verdicts m waits fs ∧ Ledger (p.waitsAfter m waits fs) b := by
  have hrange : ∀ t ∈ p.sumsFormed m waits fs, t.InRange := by
    intro t ht
    by_contra hno
    rw [h.decideAll_of_not_inRange ht hno] at hall
    cases hall
  obtain ⟨c, hall', hc⟩ := h.decideAll_of_inRange hrange
  obtain ⟨rfl, rfl⟩ := Prod.mk.inj (Option.some.inj (hall.symm.trans hall'))
  exact ⟨hrange, rfl, hc⟩

/-! ## Waits that are short enough -/

theorem waitsWith_within (h : Within p waits) (f : Failure) : Within p (p.waitsWith m waits f) := by
  cases hgranted : p.granted m waits f with
  | none => rw [waitsWith_of_none hgranted]; exact h
  | some w =>
      rw [waitsWith_of_some hgranted]
      obtain ⟨hasked, hfits⟩ := Option.filter_eq_some_iff.1 hgranted
      obtain ⟨-, hlt, -⟩ := asked_eq_some hasked
      refine h.concat hlt fun limit hlimit => ?_
      rw [fits, hlimit] at hfits
      exact of_decide_eq_true hfits

/-- Waits that are no longer than some duration. -/
def Short (longest : Duration) (waits : List Wait) : Prop := ∀ w ∈ waits, w.delay ≤ longest

theorem Short.waited_le {longest : Duration} (h : Short longest waits) :
    (waitedInAll waits).nanos ≤ waits.length * longest.nanos := by
  induction waits with
  | nil => exact Nat.zero_le _
  | cons w ws ih =>
      obtain ⟨hw, hws⟩ := List.forall_mem_cons.1 h
      change w.delay.nanos + (waitedInAll ws).nanos ≤ _
      have hle : w.delay.nanos ≤ longest.nanos := hw
      have hrest := ih hws
      rw [List.length_cons, Nat.succ_mul]
      omega

theorem Short.waitsWith {longest : Duration} (h : Short longest waits)
    (hf : ∀ b, p.delayFor f.addition b f.error ≤ longest) :
    Short longest (p.waitsWith m waits f) := by
  cases hgranted : p.granted m waits f with
  | none => rw [waitsWith_of_none hgranted]; exact h
  | some w =>
      rw [waitsWith_of_some hgranted]
      obtain ⟨hasked, -⟩ := Option.filter_eq_some_iff.1 hgranted
      obtain ⟨-, -, hdelay⟩ := asked_eq_some hasked
      exact List.forall_mem_append.2 ⟨h, List.forall_mem_singleton.2 (hdelay ▸ hf _)⟩

/-- The sums that are formed are no longer than one wait more than were granted. -/
theorem Short.sums_le {longest : Duration} (h : Short longest waits)
    (hf : ∀ b, p.delayFor f.addition b f.error ≤ longest) {t : Duration}
    (ht : t ∈ p.sums m waits f) : t.nanos ≤ (waits.length + 1) * longest.nanos := by
  cases hasked : p.asked m waits f with
  | none => rw [sums_of_not_asked hasked] at ht; cases ht
  | some w =>
      rw [sums_of_asked hasked] at ht
      obtain ⟨-, -, hdelay⟩ := asked_eq_some hasked
      have hw : w.delay.nanos ≤ longest.nanos := hdelay ▸ hf _
      have hall := h.waited_le
      have hclass : (waitedIn w.cls waits).nanos ≤ (waitedInAll waits).nanos :=
        waitedIn_le w.cls waits
      have hle : t.nanos ≤ (waitedInAll waits).nanos + w.delay.nanos := by
        rcases List.mem_cons.1 ht with rfl | ht
        · exact Nat.add_le_add_right hclass _
        · split at ht
          · obtain rfl := List.mem_singleton.1 ht
            exact Nat.le_refl _
          · cases ht
      rw [Nat.succ_mul]
      omega

/-- **No sum leaves the range of durations** unless a failure asks for a wait that is that long
itself: there are at most as many waits as retries in the four classes. -/
theorem decided_of_short_waits {longest : Duration}
    (hshort : ∀ f ∈ fs, ∀ b, p.delayFor f.addition b f.error ≤ longest)
    (hrange : (4 * p.maxRetries + 1) * longest.nanos < Duration.limit) :
    ∃ a, p.decideAll m {} fs = some (p.verdicts m [] fs, a) := by
  have hsums : ∀ {waits : List Wait}, Within p waits → Short longest waits →
      ∀ t ∈ p.sumsFormed m waits fs, t.InRange := by
    induction fs with
    | nil =>
        intro waits _ _ t ht
        cases ht
    | cons f fs ih =>
        intro waits hwithin hwaits t ht
        obtain ⟨hf, hfs⟩ := List.forall_mem_cons.1 hshort
        rcases List.mem_append.1 ht with ht | ht
        · have hle := hwaits.sums_le hf ht
          have hcount : (waits.length + 1) * longest.nanos ≤
              (4 * p.maxRetries + 1) * longest.nanos :=
            Nat.mul_le_mul_right _ (Nat.succ_le_succ hwithin.length_le)
          exact Nat.lt_of_le_of_lt (Nat.le_trans hle hcount) hrange
        · exact ih hfs (waitsWith_within hwithin f) (hwaits.waitsWith hf) t ht
  obtain ⟨a, hall, -⟩ := ledger_nil.decideAll_of_inRange
    (hsums (Within.nil p) (List.forall_mem_nil _))
  exact ⟨a, hall⟩

/-- **Every failure is settled exactly if every sum of waits that is formed is in the range of
durations**, and then as with exact sums. In particular a wait that does not fit into the total wait
of its class is refused exactly if the sum that shows it is in range; and all sums are in range as
long as one wait more than there can be retries, each of the longest wait asked for, is so. -/
theorem decided_iff_sums_in_range (p : RetryPolicy) (m : Method) (fs : List Failure) :
    ((∃ a, p.decideAll m {} fs = some (p.verdicts m [] fs, a)) ↔
        ∀ t ∈ p.sumsFormed m [] fs, t.InRange)
      ∧ (p.decideAll m {} fs = none ↔ ∃ t ∈ p.sumsFormed m [] fs, ¬ t.InRange)
      ∧ (∀ ds a f w, p.decideAll m {} fs = some (ds, a) →
          p.asked m (p.waitsAfter m [] fs) f = some w →
          p.fits (p.waitsAfter m [] fs) w = false →
          p.decideOne m a f =
            if (waitedIn w.cls (p.waitsAfter m [] fs) + w.delay).InRange then
              some (.giveUp (.budgetExhausted w.cls f.attempt
                (waitedIn w.cls (p.waitsAfter m [] fs)) f.error), a.numbered f.attempt)
            else none)
      ∧ ∀ longest : Duration, (∀ f ∈ fs, ∀ b, p.delayFor f.addition b f.error ≤ longest) →
          (4 * p.maxRetries + 1) * longest.nanos < Duration.limit →
          ∃ a, p.decideAll m {} fs = some (p.verdicts m [] fs, a) := by
  refine ⟨⟨?_, ?_⟩, ⟨?_, ?_⟩, ?_, fun longest => decided_of_short_waits⟩
  · rintro ⟨a, hall⟩
    exact (ledger_nil.of_decideAll hall).1
  · intro hrange
    obtain ⟨a, hall, -⟩ := ledger_nil.decideAll_of_inRange hrange
    exact ⟨a, hall⟩
  · intro hnone
    by_contra hno
    have hrange : ∀ t ∈ p.sumsFormed m [] fs, t.InRange := fun t ht =>
      not_not.1 fun h => hno ⟨t, ht, h⟩
    obtain ⟨a, hall, -⟩ := ledger_nil.decideAll_of_inRange hrange
    rw [hnone] at hall
    cases hall
  · rintro ⟨t, ht, hrange⟩
    exact ledger_nil.decideAll_of_not_inRange ht hrange
  · intro ds a f w hall hasked hfits
    obtain ⟨-, -, hledger⟩ := ledger_nil.of_decideAll hall
    rw [hledger.decideOne_asked hasked, hfits, refusal, (asked_eq_some hasked).1]
    rfl

end

namespace Sample

/-- The policy that is used by default, without the random part. -/
def steady : RetryPolicy := { maxJitter := .zero }

/-- The longest wait that a server can ask for. -/
def forever : Duration := .ofSecs 18446744073709551615

/-- The server is busy, and then asks for the longest wait. -/
def busyForever : List Failure :=
  [⟨.http 503 none "", 1, .zero⟩, ⟨.http 503 (some forever) "", 2, .zero⟩]

end Sample

/-- **The longest wait after another one is not refused**: there is no decision at all. -/
theorem undecided_busy_forever :
    Sample.steady.validate = .ok () ∧ Sample.steady.unavailableTimeout = .ofSecs 900
      ∧ Sample.steady.rateLimitTimeout = .ofSecs 120
      ∧ Http.HeaderField.seconds? (Utf8.encode "18446744073709551615") = some Sample.forever
      ∧ Sample.steady.verdicts .get [] Sample.busyForever =
          [.retry .temporarilyUnavailable (.ofSecs 1), .giveUp (.budgetExhausted
            .temporarilyUnavailable 2 (.ofSecs 1) (.http 503 (some Sample.forever) ""))]
      ∧ Sample.steady.decideAll .get {} Sample.busyForever = none := by
  decide +kernel

end Retry

end ResultChunks
