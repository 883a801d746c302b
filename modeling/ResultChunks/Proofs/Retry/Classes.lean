import ResultChunks.Proofs.Retry.Sequence

/-!
# Classes of failures are apart

All classes share one account, but what follows a failure depends only on the failures of its own
class before it: `apart` says so where sums of waits are exact. The classes do meet in the total
wait. So failures are settled together exactly if those of each class are settled alone and
what the classes wait is in the range of durations all together (`classes_apart`).
-/

namespace ResultChunks.Retry

open RetryPolicy

/-- The waits of a class. -/
def inClass (c : FailureClass) (waits : List Wait) : List Wait := waits.filter fun w => w.cls = c

/-- The failures of a class. -/
def ofClass (p : RetryPolicy) (c : FailureClass) (fs : List Failure) : List Failure :=
  fs.filter fun f => p.classify f.error = some c

/-- What follows the failures of a class. -/
def decisionsOn (p : RetryPolicy) (c : FailureClass) (fs : List Failure) (ds : List Decision) :
    List Decision :=
  ((fs.zip ds).filter fun x => p.classify x.1.error = some c).map Prod.snd

/-- A decision without the number of the attempt that a budget ran out after. -/
def Decision.unnumbered : Decision → Decision
  | .giveUp (.budgetExhausted cls _ waited source) => .giveUp (.budgetExhausted cls 0 waited source)
  | d => d

/-- The sum of the waits of a class that is formed to settle a failure. -/
def sumOn (p : RetryPolicy) (m : Method) (c : FailureClass) (waits : List Wait) (f : Failure) :
    Option Duration :=
  ((p.asked m waits f).filter fun w => w.cls = c).map fun w => waitedIn c waits + w.delay

/-- The sums of the waits of a class that are formed to settle some failures. -/
def sumsOn (p : RetryPolicy) (m : Method) (c : FailureClass) (waits : List Wait) :
    List Failure → List Duration
  | [] => []
  | f :: fs => (sumOn p m c waits f).toList ++ sumsOn p m c (p.waitsWith m waits f) fs

/-- Durations of the classes all together. -/
def inAll (waited : FailureClass → Duration) : Duration :=
  ⟨(FailureClass.all.map fun c => (waited c).nanos).sum⟩

/-! ## The waits of one class -/

theorem usedIn_inClass (c : FailureClass) (waits : List Wait) :
    usedIn c (inClass c waits) = usedIn c waits := by
  simp [usedIn, inClass, retriesIn, waitedIn, List.countP_filter, List.filter_filter]

theorem inClass_concat_self (waits : List Wait) (w : Wait) :
    inClass w.cls (waits ++ [w]) = inClass w.cls waits ++ [w] := by
  simp [inClass, List.filter_append]

theorem inClass_concat_of_ne {c : FailureClass} (waits : List Wait) {w : Wait} (h : w.cls ≠ c) :
    inClass c (waits ++ [w]) = inClass c waits := by
  simp [inClass, List.filter_append, h]

/-- A class waits what the waits of the class are all together. -/
theorem waitedInAll_inClass (c : FailureClass) (waits : List Wait) :
    waitedInAll (inClass c waits) = waitedIn c waits := rfl

/-- The total wait is what the classes wait. -/
theorem waitedInAll_eq (waits : List Wait) : waitedInAll waits = inAll fun c => waitedIn c waits := by
  induction waits with
  | nil => rfl
  | cons w ws ih =>
      have ih : (ws.map fun w => w.delay.nanos).sum =
          (FailureClass.all.map fun c => (waitedIn c ws).nanos).sum := congrArg Duration.nanos ih
      change (⟨w.delay.nanos + (ws.map fun w => w.delay.nanos).sum⟩ : Duration) = ⟨_⟩
      rw [ih]
      simp only [FailureClass.all, waitedIn, List.map_cons, List.map_nil, List.sum_cons,
        List.sum_nil, List.filter_cons]
      cases w.cls <;> simp <;> omega

section

variable {p : RetryPolicy} {m : Method} {waits : List Wait} {f g : Failure} {c : FailureClass}
  {w : Wait} {fs gs : List Failure}

/-! ## One failure -/

variable (hjitter : p.maxJitter.le .zero = true) (herror : g.error = f.error)

include herror in
theorem classOf_congr : p.classOf m g = p.classOf m f := by
  rw [classOf, classOf, herror]

include hjitter herror in
/-- **A failure asks for the same wait in its class alone.** -/
theorem asked_inClass (hf : p.classify f.error = some c) :
    p.asked m (inClass c waits) g = p.asked m waits f := by
  have hdelay : ∀ b, p.delayFor g.addition b g.error = p.delayFor f.addition b f.error := by
    intro b
    rw [delayFor, delayFor, herror, jittered, jittered, hjitter]
    rfl
  have hused := usedIn_inClass c waits
  have hretries : retriesIn c (inClass c waits) = retriesIn c waits := congrArg Budget.retries hused
  rw [asked, asked, classOf_congr herror]
  unfold classOf
  split
  · rename_i cls hcls
    split at hcls
    · obtain rfl := Option.some.inj (hf.symm.trans hcls)
      rw [hretries, hused, hdelay]
    · cases hcls
  · rfl

theorem fits_inClass (w : Wait) : p.fits (inClass w.cls waits) w = p.fits waits w := by
  have hwaited : waitedIn w.cls (inClass w.cls waits) = waitedIn w.cls waits :=
    congrArg Budget.waited (usedIn_inClass w.cls waits)
  rw [fits, fits, hwaited]

/-- A wait is asked for in the class of the failure. -/
theorem classify_of_asked (h : p.asked m waits f = some w) : p.classify f.error = some w.cls := by
  obtain ⟨hcls, -, -⟩ := asked_eq_some h
  unfold classOf at hcls
  split at hcls
  · exact hcls
  · cases hcls

theorem asked_of_granted (h : p.granted m waits f = some w) : p.asked m waits f = some w :=
  (Option.filter_eq_some_iff.1 h).1

include hjitter herror in
theorem granted_inClass (hf : p.classify f.error = some c) :
    p.granted m (inClass c waits) g = p.granted m waits f := by
  rw [granted, granted, asked_inClass hjitter herror hf]
  cases hasked : p.asked m waits f with
  | none => rfl
  | some w =>
      obtain rfl := Option.some.inj (hf.symm.trans (classify_of_asked hasked))
      rw [Option.filter_some, Option.filter_some, fits_inClass]

include hjitter herror in
/-- **What follows a failure is the same in its class alone**, but for the number of the attempt. -/
theorem verdict_inClass (hf : p.classify f.error = some c) :
    (p.verdict m (inClass c waits) g).unnumbered = (p.verdict m waits f).unnumbered := by
  have hwaited : waitedIn c (inClass c waits) = waitedIn c waits :=
    congrArg Budget.waited (usedIn_inClass c waits)
  cases hgranted : p.granted m waits f with
  | some w =>
      rw [verdict_of_some hgranted, verdict_of_some ((granted_inClass hjitter herror hf).trans hgranted)]
  | none =>
      rw [verdict_of_none hgranted, verdict_of_none ((granted_inClass hjitter herror hf).trans hgranted),
        refusal, refusal, classOf_congr herror, herror]
      unfold classOf
      split
      · rename_i cls hcls
        split at hcls
        · obtain rfl := Option.some.inj (hf.symm.trans hcls)
          rw [hwaited]
          rfl
        · cases hcls
      · rfl

include hjitter herror in
theorem waitsWith_inClass (hf : p.classify f.error = some c) :
    p.waitsWith m (inClass c waits) g = inClass c (p.waitsWith m waits f) := by
  have hsame : p.granted m (inClass c waits) g = p.granted m waits f :=
    granted_inClass hjitter herror hf
  cases hgranted : p.granted m waits f with
  | none => rw [waitsWith_of_none hgranted, waitsWith_of_none (hsame.trans hgranted)]
  | some w =>
      obtain rfl := Option.some.inj (hf.symm.trans (classify_of_asked (asked_of_granted hgranted)))
      rw [waitsWith_of_some hgranted, waitsWith_of_some (hsame.trans hgranted), inClass_concat_self]

/-- A failure of another class adds no wait of this one. -/
theorem inClass_waitsWith (hf : p.classify f.error ≠ some c) :
    inClass c (p.waitsWith m waits f) = inClass c waits := by
  cases hgranted : p.granted m waits f with
  | none => rw [waitsWith_of_none hgranted]
  | some w =>
      rw [waitsWith_of_some hgranted]
      refine inClass_concat_of_ne waits fun hc => hf ?_
      rw [← hc]
      exact classify_of_asked (asked_of_granted hgranted)

theorem sumOn_eq_some_iff {t : Duration} : sumOn p m c waits f = some t ↔
    ∃ w, p.asked m waits f = some w ∧ w.cls = c ∧ waitedIn c waits + w.delay = t := by
  simp [sumOn, Option.map_eq_some_iff, Option.filter_eq_some_iff, and_assoc]

/-- A failure of another class forms no sum of this one. -/
theorem sumOn_of_ne (hf : p.classify f.error ≠ some c) : sumOn p m c waits f = none := by
  refine Option.eq_none_iff_forall_ne_some.2 fun t ht => hf ?_
  obtain ⟨w, hasked, rfl, -⟩ := sumOn_eq_some_iff.1 ht
  exact classify_of_asked hasked

/-- The sums that are formed are in range exactly if those of the classes are, and the total wait
after it is. -/
theorem sums_inRange_iff (h : (waitedInAll waits).InRange) :
    (∀ t ∈ p.sums m waits f, t.InRange) ↔
      (∀ c, ∀ t ∈ (sumOn p m c waits f).toList, t.InRange)
        ∧ (waitedInAll (p.waitsWith m waits f)).InRange := by
  cases hasked : p.asked m waits f with
  | none =>
      rw [sums_of_not_asked hasked, waitsWith_of_none (granted_of_not_asked hasked)]
      refine iff_of_true (fun t ht => ?_) ⟨fun c t ht => ?_, h⟩
      · cases ht
      · obtain ⟨w, hw, -⟩ := sumOn_eq_some_iff.1 (Option.mem_toList.1 ht)
        cases hasked.symm.trans hw
  | some w =>
      have hclass : (∀ c, ∀ t ∈ (sumOn p m c waits f).toList, t.InRange) ↔
          (waitedIn w.cls waits + w.delay).InRange := by
        refine ⟨fun hall => ?_, fun hw c t ht => ?_⟩
        · exact hall w.cls _ (Option.mem_toList.2 (sumOn_eq_some_iff.2 ⟨w, hasked, rfl, rfl⟩))
        · obtain ⟨w', hw', rfl, rfl⟩ := sumOn_eq_some_iff.1 (Option.mem_toList.1 ht)
          obtain rfl := Option.some.inj (hasked.symm.trans hw')
          exact hw
      rw [sums_of_asked hasked, hclass]
      by_cases hfits : p.fits waits w = true
      · rw [if_pos hfits, waitsWith_of_some (granted_of_fits hasked hfits), waitedInAll_concat,
          List.forall_mem_cons, List.forall_mem_singleton]
      · rw [if_neg hfits, waitsWith_of_none (granted_of_not_fits hasked (Bool.eq_false_iff.2 hfits)),
          List.forall_mem_singleton]
        exact (and_iff_left h).symm

/-! ## Any number of failures -/

/-- What becomes of failures, as far as a class is concerned, and what becomes of those of the class
alone. -/
structure Apart (p : RetryPolicy) (m : Method) (c : FailureClass) (waits : List Wait)
    (fs gs : List Failure) : Prop where
  granted : p.waitsAfter m (inClass c waits) gs = inClass c (p.waitsAfter m waits fs)
  decisions : (p.verdicts m (inClass c waits) gs).map Decision.unnumbered =
    (decisionsOn p c fs (p.verdicts m waits fs)).map Decision.unnumbered
  sums : sumsOn p m c (inClass c waits) gs = sumsOn p m c waits fs

theorem ofClass_cons_self (hf : p.classify f.error = some c) (fs : List Failure) :
    ofClass p c (f :: fs) = f :: ofClass p c fs := by
  rw [ofClass, List.filter_cons, if_pos (decide_eq_true hf)]
  rfl

theorem ofClass_cons_of_ne (hf : p.classify f.error ≠ some c) (fs : List Failure) :
    ofClass p c (f :: fs) = ofClass p c fs := by
  rw [ofClass, List.filter_cons, if_neg (by simpa using hf)]
  rfl

theorem decisionsOn_cons_self (hf : p.classify f.error = some c) (d : Decision) (ds : List Decision) :
    decisionsOn p c (f :: fs) (d :: ds) = d :: decisionsOn p c fs ds := by
  rw [decisionsOn, List.zip_cons_cons, List.filter_cons, if_pos (decide_eq_true hf)]
  rfl

theorem decisionsOn_cons_of_ne (hf : p.classify f.error ≠ some c) (d : Decision)
    (ds : List Decision) : decisionsOn p c (f :: fs) (d :: ds) = decisionsOn p c fs ds := by
  rw [decisionsOn, List.zip_cons_cons, List.filter_cons, if_neg (by simpa using hf)]
  rfl

include hjitter in
/-- **With exact sums the classes are apart.** -/
theorem apart (waits : List Wait)
    (hgs : gs.map Failure.error = (ofClass p c fs).map Failure.error) : Apart p m c waits fs gs := by
  induction fs generalizing waits gs with
  | nil =>
      obtain rfl := List.map_eq_nil_iff.1 hgs
      exact ⟨rfl, rfl, rfl⟩
  | cons f fs ih =>
      by_cases hf : p.classify f.error = some c
      · rw [ofClass_cons_self hf, List.map_cons] at hgs
        obtain ⟨g, gs, rfl, herror, hgs⟩ := List.map_eq_cons_iff.1 hgs
        obtain ⟨hwaits, hdecisions, hsums⟩ := ih (p.waitsWith m waits f) hgs
        have hwith : p.waitsWith m (inClass c waits) g = inClass c (p.waitsWith m waits f) :=
          waitsWith_inClass hjitter herror hf
        rw [← hwith] at hwaits hdecisions hsums
        refine ⟨hwaits, ?_, ?_⟩
        · rw [verdicts, verdicts, decisionsOn_cons_self hf, List.map_cons, List.map_cons,
            verdict_inClass hjitter herror hf, hdecisions]
        · have hwaited : waitedIn c (inClass c waits) = waitedIn c waits :=
            congrArg Budget.waited (usedIn_inClass c waits)
          rw [sumsOn, sumsOn, sumOn, sumOn, asked_inClass hjitter herror hf, hwaited, hsums]
      · rw [ofClass_cons_of_ne hf] at hgs
        obtain ⟨hwaits, hdecisions, hsums⟩ := ih (p.waitsWith m waits f) hgs
        rw [inClass_waitsWith hf] at hwaits hdecisions hsums
        refine ⟨hwaits, ?_, ?_⟩
        · rw [verdicts, decisionsOn_cons_of_ne hf, hdecisions]
        · rw [sumsOn, sumOn_of_ne hf, hsums]
          rfl

theorem inRange_nil : (waitedInAll []).InRange := by decide

/-- The total wait only grows. -/
theorem waitedInAll_le_waitsAfter (p : RetryPolicy) (m : Method) (waits : List Wait)
    (fs : List Failure) : waitedInAll waits ≤ waitedInAll (p.waitsAfter m waits fs) := by
  induction fs generalizing waits with
  | nil => exact Nat.le_refl _
  | cons f fs ih =>
      have hone : waitedInAll waits ≤ waitedInAll (p.waitsWith m waits f) := by
        cases hgranted : p.granted m waits f with
        | none => rw [waitsWith_of_none hgranted]; exact Nat.le_refl _
        | some w => rw [waitsWith_of_some hgranted, waitedInAll_concat]; exact Nat.le_add_right _ _
      exact Nat.le_trans hone (ih (p.waitsWith m waits f))

/-- **The sums that are formed are in range** exactly if those of the classes are, and the total wait
in the end is. -/
theorem sumsFormed_inRange_iff (h : (waitedInAll waits).InRange) :
    (∀ t ∈ p.sumsFormed m waits fs, t.InRange) ↔
      (∀ c, ∀ t ∈ sumsOn p m c waits fs, t.InRange)
        ∧ (waitedInAll (p.waitsAfter m waits fs)).InRange := by
  induction fs generalizing waits with
  | nil => exact iff_of_true (List.forall_mem_nil _) ⟨fun _ => List.forall_mem_nil _, h⟩
  | cons f fs ih =>
      have hsums := sums_inRange_iff (p := p) (m := m) (f := f) h
      rw [sumsFormed, List.forall_mem_append, hsums]
      simp only [sumsOn, List.forall_mem_append, forall_and]
      constructor
      · rintro ⟨⟨hclass, hnext⟩, hrest⟩
        obtain ⟨hclasses, hend⟩ := (ih hnext).1 hrest
        exact ⟨⟨hclass, hclasses⟩, hend⟩
      · rintro ⟨⟨hclass, hclasses⟩, hend⟩
        have hnext : (waitedInAll (p.waitsWith m waits f)).InRange :=
          Nat.lt_of_le_of_lt (waitedInAll_le_waitsAfter p m _ fs) hend
        exact ⟨⟨hclass, hnext⟩, (ih hnext).2 ⟨hclasses, hend⟩⟩

theorem sumsOn_of_ne (h : ∀ f ∈ fs, p.classify f.error ≠ some c) (waits : List Wait) :
    sumsOn p m c waits fs = [] := by
  induction fs generalizing waits with
  | nil => rfl
  | cons f fs ih =>
      obtain ⟨hf, hfs⟩ := List.forall_mem_cons.1 h
      rw [sumsOn, sumOn_of_ne hf, ih hfs]
      rfl

/-- Failures with the errors of a class are of that class. -/
theorem classify_of_alone (hgs : gs.map Failure.error = (ofClass p c fs).map Failure.error)
    {g : Failure} (hg : g ∈ gs) : p.classify g.error = some c := by
  have hmem : g.error ∈ (ofClass p c fs).map Failure.error := hgs ▸ List.mem_map_of_mem hg
  obtain ⟨f, hf, hfg⟩ := List.mem_map.1 hmem
  rw [← hfg]
  exact of_decide_eq_true (List.mem_filter.1 hf).2

section

variable (hgs : gs.map Failure.error = (ofClass p c fs).map Failure.error)

include hjitter hgs

/-- Failures of a class alone form the sums of their class, and no wait adds to another. -/
theorem alone_inRange_iff : (∀ t ∈ p.sumsFormed m [] gs, t.InRange) ↔
    (∀ t ∈ sumsOn p m c [] fs, t.InRange) ∧ (waitedIn c (p.waitsAfter m [] fs)).InRange := by
  obtain ⟨hgranted, -, hsums⟩ := apart (m := m) hjitter [] hgs
  change p.waitsAfter m [] gs = _ at hgranted
  change sumsOn p m c [] gs = _ at hsums
  rw [sumsFormed_inRange_iff inRange_nil, hgranted, waitedInAll_inClass, ← hsums]
  refine and_congr_left' ⟨fun h => h c, fun h c' => ?_⟩
  by_cases hc : c' = c
  · subst hc
    exact h
  · rw [sumsOn_of_ne fun g hg hg' => hc (Option.some.inj (hg'.symm.trans (classify_of_alone hgs hg)))]
    exact List.forall_mem_nil _

/-- What failures of a class alone use up of its budget. -/
theorem alone_budget {b : Account} (h : Ledger (p.waitsAfter m [] gs) b) :
    b.budget c = usedIn c (p.waitsAfter m [] fs) := by
  obtain ⟨hgranted, -, -⟩ := apart (m := m) hjitter [] hgs
  change p.waitsAfter m [] gs = _ at hgranted
  rw [h.budgets, hgranted, usedIn_inClass]

/-- **What is settled all together is settled in each class alone**, and as it was. -/
theorem settled_alone {ds : List Decision} {a : Account} (hall : p.decideAll m {} fs = some (ds, a)) :
    ∃ ds' b, p.decideAll m {} gs = some (ds', b)
      ∧ (decisionsOn p c fs ds).map Decision.unnumbered = ds'.map Decision.unnumbered
      ∧ a.budget c = b.budget c ∧ b.budget c = usedIn c (p.waitsAfter m [] fs) := by
  obtain ⟨hrange, rfl, hledger⟩ := ledger_nil.of_decideAll hall
  obtain ⟨hclasses, htotal⟩ := (sumsFormed_inRange_iff inRange_nil).1 hrange
  have hclass : (waitedIn c (p.waitsAfter m [] fs)).InRange :=
    Nat.lt_of_le_of_lt (waitedIn_le c _) htotal
  obtain ⟨b, hb, hbledger⟩ := ledger_nil.decideAll_of_inRange
    ((alone_inRange_iff hjitter hgs).2 ⟨hclasses c, hclass⟩)
  have hbudget := alone_budget hjitter hgs hbledger
  exact ⟨_, b, hb, (apart hjitter [] hgs).decisions.symm,
    (hledger.budgets c).trans hbudget.symm, hbudget⟩

end

end

/-- **The classes are apart but for the total wait.** Without a random part of the waits, failures
are settled together exactly if those of each class are settled alone and what the classes wait is in
the range of durations all together. Then what follows the failures of a class is what follows them
alone, and so is what they use up of its budget. -/
theorem classes_apart {p : RetryPolicy} {m : Method} {fs : List Failure}
    {alone : FailureClass → List Failure} (hjitter : p.maxJitter.le .zero = true)
    (halone : ∀ c, (alone c).map Failure.error = (ofClass p c fs).map Failure.error) :
    ((∃ ds a, p.decideAll m {} fs = some (ds, a)) ↔
        ∃ b : FailureClass → Account, (∀ c, ∃ ds, p.decideAll m {} (alone c) = some (ds, b c))
          ∧ (inAll fun c => ((b c).budget c).waited).InRange)
      ∧ ∀ ds a, p.decideAll m {} fs = some (ds, a) →
          a.waited = inAll (fun c => (a.budget c).waited)
          ∧ ∀ c, ∃ ds' b, p.decideAll m {} (alone c) = some (ds', b)
            ∧ (decisionsOn p c fs ds).map Decision.unnumbered = ds'.map Decision.unnumbered
            ∧ a.budget c = b.budget c := by
  have hwaits : waitedInAll (p.waitsAfter m [] fs) =
      inAll fun c => (usedIn c (p.waitsAfter m [] fs)).waited := waitedInAll_eq _
  refine ⟨⟨?_, ?_⟩, ?_⟩
  · rintro ⟨ds, a, hall⟩
    choose ds' b hb _ _ hbudget using fun c => settled_alone hjitter (halone c) hall
    refine ⟨b, fun c => ⟨ds' c, hb c⟩, ?_⟩
    obtain ⟨-, htotal⟩ := (sumsFormed_inRange_iff inRange_nil).1 (ledger_nil.of_decideAll hall).1
    rw [hwaits] at htotal
    simpa only [hbudget] using htotal
  · rintro ⟨b, hb, htotal⟩
    have hone : ∀ c, (∀ t ∈ sumsOn p m c [] fs, t.InRange)
        ∧ (b c).budget c = usedIn c (p.waitsAfter m [] fs) := by
      intro c
      obtain ⟨ds', hds'⟩ := hb c
      obtain ⟨hrange, -, hledger⟩ := ledger_nil.of_decideAll hds'
      exact ⟨((alone_inRange_iff hjitter (halone c)).1 hrange).1,
        alone_budget hjitter (halone c) hledger⟩
    have hend : (waitedInAll (p.waitsAfter m [] fs)).InRange := by
      rw [hwaits]
      simpa only [(hone _).2] using htotal
    obtain ⟨a, hall, -⟩ := ledger_nil.decideAll_of_inRange
      ((sumsFormed_inRange_iff inRange_nil).2 ⟨fun c => (hone c).1, hend⟩)
    exact ⟨_, a, hall⟩
  · intro ds a hall
    obtain ⟨-, -, hledger⟩ := ledger_nil.of_decideAll hall
    refine ⟨?_, fun c => ?_⟩
    · rw [hledger.total, hwaits]
      simp only [hledger.budgets]
    · obtain ⟨ds', b, hb, hdecisions, hbudget, -⟩ := settled_alone hjitter (halone c) hall
      exact ⟨ds', b, hb, hdecisions, hbudget⟩

namespace Sample

/-- Three classes by turns. -/
def mixed : List Failure :=
  [⟨.http 503 none "", 1, .zero⟩, ⟨.http 429 (some (.ofSecs 7)) "", 2, .zero⟩,
    ⟨.http 503 none "", 3, .zero⟩, ⟨.transport "", 4, .zero⟩,
    ⟨.http 429 (some (.ofSecs 1000)) "", 5, .zero⟩]

/-- The network fails, and then the server asks for the longest wait. -/
def brokenForever : List Failure :=
  [⟨.transport "", 1, .zero⟩, ⟨.http 500 (some forever) "", 2, .zero⟩]

end Sample

/-- The waits of the other classes leave those after status 429 as they are. -/
theorem classes_apart_mixed :
    ∃ ds a, Sample.steady.decideAll .get {} Sample.mixed = some (ds, a)
      ∧ a.waited = .ofSecs 11 ∧ a.budget .rateLimited = ⟨1, .ofSecs 7⟩
      ∧ ∃ ds' b, Sample.steady.decideAll .get {} (ofClass Sample.steady .rateLimited Sample.mixed) =
          some (ds', b)
        ∧ (decisionsOn Sample.steady .rateLimited Sample.mixed ds).map Decision.unnumbered =
          ds'.map Decision.unnumbered
        ∧ a.budget .rateLimited = b.budget .rateLimited := by
  obtain ⟨-, happly⟩ := @classes_apart Sample.steady .get Sample.mixed
    (fun c => ofClass Sample.steady c Sample.mixed) (by decide) (fun _ => rfl)
  have hrun : (Sample.steady.decideAll .get {} Sample.mixed).any (fun r =>
      decide (r.2.waited = .ofSecs 11 ∧ r.2.budget .rateLimited = ⟨1, .ofSecs 7⟩)) = true := by
    decide +kernel
  obtain ⟨⟨ds, a⟩, hall, hdecided⟩ := (Option.any_eq_true _ _).1 hrun
  obtain ⟨hwaited, hbudget⟩ := of_decide_eq_true hdecided
  obtain ⟨-, hclass⟩ := happly ds a hall
  exact ⟨ds, a, hall, hwaited, hbudget, hclass .rateLimited⟩

/-- **A wait that its class grants alone is not granted after one of another class**: there is no
decision at all. -/
theorem undecided_broken_forever :
    Sample.steady.maxJitter.le .zero = true ∧ Method.get.mayRepeat = true
      ∧ (Sample.steady.decideAll .get {}
          (ofClass Sample.steady .serverError Sample.brokenForever)).map Prod.fst =
        some [.retry .serverError Sample.forever]
      ∧ (Sample.steady.decideAll .get {}
          (ofClass Sample.steady .connection Sample.brokenForever)).map Prod.fst =
        some [.retry .connection (.ofSecs 1)]
      ∧ Sample.steady.decideAll .get {} Sample.brokenForever = none := by
  decide +kernel

end ResultChunks.Retry
