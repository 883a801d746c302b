import ResultChunks.Proofs.Provider.Reports
import ResultChunks.Proofs.Retry.Attempts

/-!
# The accounts of a task

A task runs at most two operations under the retry policy: it resolves the link of its chunk if that
has none it can use, and then downloads the payload. What the attempts of each came to is what the
task heard; the waits between them are what it reported. `Tally` says for each point of a task how
what it heard and reported so far goes together with its account, and each leg leads from one such
stage to the next. So when the task ends, the attempts it reports are those it made (`Concludes`).
-/

namespace ResultChunks.Provider

open Retry (Account Wait Tried Ended)

/-- What an attempt to resolve the link came to. -/
def Signal.answer : Signal → Option (Except FetchError LinkTable)
  | .links result => some result
  | _ => none

/-- What an attempt at the payload came to. A new link in the middle of an attempt does not end it,
but the attempt fails if there is none. -/
def Signal.outcome : Signal → Option (Except FetchError Download)
  | .payload result => some result
  | .links (.error e) => some (.error e)
  | _ => none

/-- What the attempts to resolve the link came to. -/
def answersIn (signals : List Signal) : List (Except FetchError LinkTable) :=
  signals.filterMap Signal.answer

/-- What the attempts at the payload came to. -/
def outcomesIn (signals : List Signal) : List (Except FetchError Download) :=
  signals.filterMap Signal.outcome

/-- The reports of an operation: one for each wait, with the number of the attempt before it. -/
def retryReports (i : Nat) (waits : List Wait) : List ChunkEvent :=
  waits.mapIdx fun k w => .retry i w.cls (k + 1) w.delay

@[simp] theorem answersIn_append (signals more : List Signal) :
    answersIn (signals ++ more) = answersIn signals ++ answersIn more := List.filterMap_append

@[simp] theorem outcomesIn_append (signals more : List Signal) :
    outcomesIn (signals ++ more) = outcomesIn signals ++ outcomesIn more := List.filterMap_append

theorem retryReports_concat (i : Nat) (waits : List Wait) (w : Wait) :
    retryReports i (waits ++ [w]) =
      retryReports i waits ++ [.retry i w.cls (waits.length + 1) w.delay] := List.mapIdx_concat

theorem countP_retryReports (i : Nat) (waits : List Wait) :
    (retryReports i waits).countP ChunkEvent.isRetry = waits.length := by
  rw [List.countP_eq_length.2, retryReports, List.length_mapIdx]
  intro event hevent
  obtain ⟨k, hk, rfl⟩ := List.mem_mapIdx.1 hevent
  rfl

theorem any_retryReports (i : Nat) (waits : List Wait) :
    (retryReports i waits).any ChunkEvent.isLast = false := by
  rw [List.any_eq_false]
  intro event hevent
  obtain ⟨k, hk, rfl⟩ := List.mem_mapIdx.1 hevent
  exact Bool.false_ne_true

/-! ## The stages of a task -/

/-- The task resolves its link. -/
def Resolving (p : Setup) (i : Nat) (heard : List Signal) (told : List ChunkEvent) (a : Account) :
    Prop :=
  ∃ signals waits, heard = .start :: signals ∧ told = retryReports i waits
    ∧ Tried p.config.retry p.resolverMethod (answersIn signals) waits a

/-- The chunk has its link, and these are the answers it took. It takes none if the chunk had a link
that could be used; `asked` says that the task asked for one. -/
inductive Linked (p : Setup) (i : Nat) (asked : Prop) :
    List Signal → List ChunkEvent → List (Except FetchError LinkTable) → Prop where
  | found (h : ¬ asked) : Linked p i asked [.start] [] []
  | resolved (h : asked) {signals : List Signal} {waits : List Wait} {o : Outcome LinkTable}
      {links : LinkTable} (elapsed : Duration)
      (ended : Ended p.config.retry p.resolverMethod (answersIn signals) waits o)
      (ho : o.result = .ok links) :
      Linked p i asked (.start :: signals)
        (retryReports i waits ++ [.linksResolved [i] links.length o.attempts elapsed])
        (answersIn signals)

/-- The task downloads the payload. -/
def Downloading (p : Setup) (i : Nat) (asked : Prop) (heard : List Signal) (told : List ChunkEvent)
    (a : Account) : Prop :=
  ∃ before toldBefore answers signals waits, Linked p i asked before toldBefore answers
    ∧ heard = before ++ signals ∧ told = toldBefore ++ retryReports i waits
    ∧ Tried p.config.retry .get (outcomesIn signals) waits a

/-- How a task ends, after it heard and reported these things: what its attempts to resolve the link
came to, what those at the payload came to, and its result with the attempts of the operation that
ended it. -/
inductive Concludes (p : Setup) (i : Nat) (asked : Prop) : List Signal → List ChunkEvent →
    List (Except FetchError LinkTable) → List (Except FetchError Download) → TaskResult → Prop where
  /-- The link could not be resolved. -/
  | unresolved (h : asked) {signals : List Signal} {waits : List Wait} {o : Outcome LinkTable}
      {e : FetchError} (ended : Ended p.config.retry p.resolverMethod (answersIn signals) waits o)
      (ho : o.result = .error e) :
      Concludes p i asked (.start :: signals) (retryReports i waits) (answersIn signals) []
        ⟨.error (.linkResolution [i] e), o.attempts⟩
  /-- Links were resolved, and none was for the chunk. -/
  | unlinked (h : asked) {signals : List Signal} {waits : List Wait} {o : Outcome LinkTable}
      {links : LinkTable} (elapsed : Duration)
      (ended : Ended p.config.retry p.resolverMethod (answersIn signals) waits o)
      (ho : o.result = .ok links) :
      Concludes p i asked (.start :: signals)
        (retryReports i waits ++ [.linksResolved [i] links.length o.attempts elapsed])
        (answersIn signals) [] ⟨.error (.invalidManifest (.noLinkResolved i)), o.attempts⟩
  /-- The download ended. -/
  | tried {heard signals : List Signal} {told : List ChunkEvent} {waits : List Wait}
      {answers : List (Except FetchError LinkTable)} {o : Outcome Download}
      (h : Linked p i asked heard told answers)
      (ended : Ended p.config.retry .get (outcomesIn signals) waits o) :
      Concludes p i asked (heard ++ signals) (told ++ retryReports i waits) answers (outcomesIn signals)
        ⟨o.result, o.attempts⟩

/-- Where the accounts of a task stand: it is at a phase, and at a point if it is in the middle of a
stretch. What it heard and reported is all of its operations so far. -/
def Tally (p : Setup) (i : Nat) (asked : Prop) (heard : List Signal) (told : List ChunkEvent) :
    Option Phase → Option Point → Prop
  | _, some .ensure => ¬ asked ∧ heard = [.start] ∧ told = []
  | _, some (.ask _ a) => Resolving p i heard told a
  | _, some (.apply links n) => asked ∧ ∃ signals waits o, heard = .start :: signals
      ∧ told = retryReports i waits
      ∧ Ended p.config.retry p.resolverMethod (answersIn signals) waits o
      ∧ o.result = .ok links ∧ o.attempts = n
  | _, some (.mark _) | _, some .begin => ∃ answers, Linked p i asked heard told answers
  | _, some (.attempt a) => Downloading p i asked heard told a
  | _, some (.refresh a) | _, some (.applyRefreshed _ a) | _, some (.resume a) =>
    ∃ b : Account, a = b.begin ∧ Downloading p i asked heard told b
  | _, some (.finish r) => ∃ answers outcomes, Concludes p i asked heard told answers outcomes r
  | none, none | some .claimed, none => ¬ asked ∧ heard = [] ∧ told = []
  | some (.resolving a), none => ∃ b : Account, a = b.begin ∧ Resolving p i heard told b
  | some (.resolvePause a), none => Resolving p i heard told a
  | some (.downloading a), none | some (.refreshing a), none =>
    ∃ b : Account, a = b.begin ∧ Downloading p i asked heard told b
  | some (.downloadPause a), none => Downloading p i asked heard told a
  | some .ended, none => True
  | some .lost, none => told.any ChunkEvent.isLast = false

/-! ## Nothing is reported of the end before it -/

section

variable {p : Setup} {i : Nat} {asked : Prop} {heard : List Signal} {told : List ChunkEvent}
  {answers : List (Except FetchError LinkTable)} {a : Account}

/-- A chunk that has its link took one attempt more than it waited, or it took none. -/
theorem Linked.adds (h : Linked p i asked heard told answers) : (answers ≠ [] ↔ asked)
    ∧ told.countP ChunkEvent.isRetry = answers.length - 1
    ∧ told.any ChunkEvent.isLast = false := by
  cases h with
  | found h => exact ⟨⟨fun hne => absurd rfl hne, fun ha => absurd ha h⟩, rfl, rfl⟩
  | resolved h elapsed ended ho =>
      refine ⟨iff_of_true ended.ne_nil h, ?_, ?_⟩
      · rw [List.countP_append, countP_retryReports, ended.attempts.2]
        rfl
      · rw [List.any_append, any_retryReports]
        rfl

theorem Resolving.running (h : Resolving p i heard told a) : told.any ChunkEvent.isLast = false := by
  obtain ⟨signals, waits, -, rfl, -⟩ := h
  exact any_retryReports i waits

theorem Downloading.running (h : Downloading p i asked heard told a) :
    told.any ChunkEvent.isLast = false := by
  obtain ⟨before, toldBefore, answers, signals, waits, hlinked, -, rfl, -⟩ := h
  rw [List.any_append, hlinked.adds.2.2, any_retryReports]
  rfl

end

/-! ## Each leg leads to the next stage -/

section

variable {p : Setup} {s : State} {now : Moment} {addition : Duration} {i : Nat} {phase : Phase}
  {broken : Bool} {payloads : List Download} {d : Descriptor} {asked : Prop} {heard : List Signal}
  {told : List ChunkEvent}

/-- The accounts of a chunk's task after a leg. -/
def LegTally (p : Setup) (i : Nat) (asked : Prop) (heard : List Signal) (told : List ChunkEvent)
    (l : Leg) : Prop :=
  Tally p i asked heard (told ++ reportsIn i l.effects) l.state.tasks[i]? l.next

theorem tally_goesOn {l : Leg} {pt : Point} (hn : l.next = some pt) (hr : reportsIn i l.effects = [])
    (h : ∀ phase, Tally p i asked heard told phase (some pt)) : LegTally p i asked heard told l := by
  rw [LegTally, hn, hr, List.append_nil]
  exact h _

theorem tally_waits (ht : s.tasks[i]? = some phase) {next : Phase} {effects : List Effect}
    (h : Tally p i asked heard (told ++ reportsIn i effects) (some next) none) :
    LegTally p i asked heard told ⟨s.setPhase i next, effects, none⟩ := by
  rw [LegTally, State.setPhase, phase_set ht]
  exact h

/-- A task that is lost has reported nothing of its end. -/
theorem tally_lost (ht : s.tasks[i]? = some phase) (htold : told.any ChunkEvent.isLast = false)
    {effects : List Effect} (he : reportsIn i effects = []) :
    LegTally p i asked heard told ⟨s.setPhase i .lost, effects, none⟩ := by
  refine tally_waits ht ?_
  rw [he, List.append_nil]
  exact htold

theorem isFor_retry (i : Nat) (cls : FailureClass) (attempt : Nat) (delay : Duration) :
    (ChunkEvent.retry i cls attempt delay).isFor i = true := beq_self_eq_true _

/-- The reports of one more retry. -/
theorem reports_pause {waits : List Wait} {a : Account} (ha : a.attempts = waits.length)
    (log : List Log.Entry) (cls : FailureClass) (delay : Duration) :
    retryReports i waits ++ reportsIn i (notes log ++
        [.report (.retry i cls a.begin.attempts delay), .sleep i delay]) =
      retryReports i (waits ++ [⟨cls, delay⟩]) := by
  rw [retryReports_concat, reportsIn_append, reportsIn_notes, List.nil_append,
    reportsIn_report (isFor_retry ..), ← ha]
  rfl

/-- **An attempt at the payload that came to something** ends the download, or is followed by a wait
that is reported, or by nothing. -/
theorem tally_settleAttempt (ht : s.tasks[i]? = some phase) {b : Account}
    (h : Downloading p i asked heard told b) {signal : Signal}
    {result : Except FetchError Download} (hs : signal.outcome = some result) :
    LegTally p i asked (heard ++ [signal]) told
      (s.settleAttempt p addition i b.begin result) := by
  have hrunning := h.running
  obtain ⟨before, toldBefore, answers, signals, waits, hlinked, rfl, rfl, htried⟩ := h
  have hone : outcomesIn [signal] = [result] := List.filterMap_cons_some hs
  have hout : outcomesIn (signals ++ [signal]) = outcomesIn signals ++ [result] := by
    rw [outcomesIn_append, hone]
  unfold State.settleAttempt
  rcases hturn : Retry.settle p.config.retry .get addition b.begin result with
    _ | ⟨o⟩ | ⟨cls, delay, c⟩
  · exact tally_lost ht hrunning (reportsIn_notes i _)
  · refine tally_goesOn rfl (reportsIn_notes i _) fun _ => ?_
    have hended := htried.ended hturn
    rw [← hout] at hended
    rw [List.append_assoc]
    exact ⟨_, _, .tried hlinked hended⟩
  · have hnext := htried.retry hturn
    rw [← hout] at hnext
    refine tally_waits ht ?_
    rw [List.append_assoc, List.append_assoc, reports_pause (htried.1.trans htried.length)]
    exact ⟨before, toldBefore, answers, _, _, hlinked, rfl, rfl, hnext⟩

/-- **An attempt to resolve the link that came to something.** -/
theorem tally_settleLinks (ht : s.tasks[i]? = some phase) (hasked : asked) {b : Account}
    (h : Resolving p i heard told b) (result : Except FetchError LinkTable) :
    LegTally p i asked (heard ++ [.links result]) told
      (s.settleLinks p addition i b.begin result) := by
  have hrunning := h.running
  obtain ⟨signals, waits, rfl, rfl, htried⟩ := h
  have hout : answersIn (signals ++ [.links result]) = answersIn signals ++ [result] :=
    answersIn_append _ _
  unfold State.settleLinks
  rcases hturn : Retry.settle p.config.retry p.resolverMethod addition b.begin result with
    _ | ⟨o⟩ | ⟨cls, delay, c⟩
  · exact tally_lost ht hrunning (reportsIn_notes i _)
  · have hended := htried.ended hturn
    rw [← hout] at hended
    dsimp only
    split
    · rename_i links ho
      exact tally_goesOn rfl (reportsIn_notes i _)
        fun _ => ⟨hasked, _, _, o, rfl, rfl, hended, ho, rfl⟩
    · rename_i e ho
      refine tally_goesOn rfl ?_ fun _ => ⟨_, _, .unresolved hasked hended ho⟩
      exact (reportsIn_append ..).trans (by rw [reportsIn_notes]; rfl)
  · have hnext := htried.retry hturn
    rw [← hout] at hnext
    refine tally_waits ht ?_
    rw [reports_pause (htried.1.trans htried.length)]
    exact ⟨_, _, rfl, rfl, hnext⟩

/-- A signal that is no answer to an attempt leaves the accounts as they are. -/
theorem Downloading.hears {a : Account} (h : Downloading p i asked heard told a) {signal : Signal}
    (hs : signal.outcome = none) : Downloading p i asked (heard ++ [signal]) told a := by
  obtain ⟨before, toldBefore, answers, signals, waits, hlinked, rfl, rfl, htried⟩ := h
  have hout : outcomesIn (signals ++ [signal]) = outcomesIn signals := by
    rw [outcomesIn_append, show outcomesIn [signal] = [] from List.filterMap_cons_none hs,
      List.append_nil]
  rw [List.append_assoc]
  exact ⟨before, toldBefore, answers, _, waits, hlinked, rfl, rfl, by rw [hout]; exact htried⟩

theorem Resolving.hears {a : Account} (h : Resolving p i heard told a) {signal : Signal}
    (hs : signal.answer = none) : Resolving p i (heard ++ [signal]) told a := by
  obtain ⟨signals, waits, rfl, rfl, htried⟩ := h
  have hout : answersIn (signals ++ [signal]) = answersIn signals := by
    rw [answersIn_append, show answersIn [signal] = [] from List.filterMap_cons_none hs,
      List.append_nil]
  exact ⟨signals ++ [signal], waits, rfl, rfl, by rw [hout]; exact htried⟩

/-- **What a task does with a signal leads to the next stage.** -/
theorem hear_tally {signal : Signal} {l : Leg} (ht : s.tasks[i]? = some phase)
    (hd : s.store.chunks[i]? = some d) (hasked : ∀ a, phase = .resolving a → asked)
    (h : Tally p i asked heard told (some phase) none)
    (hl : s.hear p addition i signal = some l) :
    LegTally p i asked (heard ++ [signal]) told l := by
  have waiting : ∀ {next : Phase}, s.tasks[i]? = some next → phase = next := by
    intro next hn
    rw [ht] at hn
    exact Option.some.inj hn
  cases State.hear_hears hl with
  | start hn =>
      obtain rfl := waiting hn
      obtain ⟨hno, rfl, rfl⟩ := h
      exact tally_goesOn rfl rfl fun _ => ⟨hno, rfl, rfl⟩
  | resolved hn result =>
      obtain rfl := waiting hn
      obtain ⟨b, rfl, hb⟩ := h
      exact tally_settleLinks ht (hasked _ rfl) hb result
  | refreshed hn links =>
      obtain rfl := waiting hn
      obtain ⟨b, rfl, hb⟩ := h
      exact tally_goesOn rfl rfl fun _ => ⟨b, rfl, hb.hears rfl⟩
  | unrefreshed hn e =>
      obtain rfl := waiting hn
      obtain ⟨b, rfl, hb⟩ := h
      exact tally_settleAttempt ht hb rfl
  | payload hn result =>
      obtain rfl := waiting hn
      obtain ⟨b, rfl, hb⟩ := h
      exact tally_settleAttempt ht hb rfl
  | asksAgain hn hr =>
      obtain rfl := waiting hn
      exact tally_goesOn rfl rfl fun _ => Resolving.hears h rfl
  | asksNothing hn hr =>
      -- the request is there as long as the chunk is
      rw [State.linkRequest_eq hd] at hr
      cases hr
  | triesAgain hn =>
      obtain rfl := waiting hn
      exact tally_goesOn rfl rfl fun _ => Downloading.hears h rfl

/-! ### Leg by leg -/

section

variable (hc : s.closed = false) (ht : s.tasks[i]? = some phase)
  (hd : s.store.chunks[i]? = some d)

include hc hd

theorem tally_ensureLeg (hs : d.status = .pending) (hno : ¬ asked) :
    LegTally p i asked [.start] [] (s.ensureLeg p now i) := by
  rw [State.ensureLeg, if_neg (by simp [hc]), Store.get_eq_ok hd]
  dsimp only
  split
  · rw [Store.move_eq hd (by rw [hs]; rfl)]
    exact tally_goesOn rfl (reportsIn_notes i _) fun _ => ⟨[], .found hno⟩
  · exact tally_goesOn rfl rfl fun _ => ⟨[], [], rfl, rfl, Retry.tried_nil _ _⟩

omit hd in
include ht in
theorem tally_askLeg (request : LinkRequest) {a : Account} (h : Resolving p i heard told a) :
    LegTally p i asked heard told (s.askLeg i request a) := by
  rw [State.askLeg, if_neg (by simp [hc])]
  split
  · exact tally_lost ht h.running rfl
  · refine tally_waits ht ⟨a, rfl, ?_⟩
    rw [reportsIn_askLinks, reportsIn_nil, List.append_nil]
    exact h

theorem tally_applyLeg (hasked : asked) {signals : List Signal} {waits : List Wait}
    {o : Outcome LinkTable} {links : LinkTable}
    (hended : Ended p.config.retry p.resolverMethod (answersIn signals) waits o)
    (ho : o.result = .ok links) :
    LegTally p i asked (.start :: signals) (retryReports i waits)
      (s.applyLeg now i links o.attempts) := by
  have hself : (ChunkEvent.linksResolved [i] links.length o.attempts now.elapsed).isFor i = true :=
    beq_self_eq_true _
  have hreports : reportsIn i (s.applyLeg now i links o.attempts).effects =
      [.linksResolved [i] links.length o.attempts now.elapsed] := by
    rw [applyLeg_reports, reportsIn_report hself, reportsIn_nil]
  rw [LegTally, hreports]
  obtain ⟨store, entries, o', ha, -, -⟩ := State.applyLinks_eq links hc hd
  rw [State.applyLeg, ha]
  by_cases hl : o'.isSome = true
  · rw [if_pos hl]
    exact ⟨_, .resolved hasked _ hended ho⟩
  · rw [if_neg hl]
    exact ⟨_, _, .unlinked hasked _ hended ho⟩

omit hc in
theorem tally_markLeg (hs : d.status = .pending) (attempts : Nat)
    (h : ∃ answers, Linked p i asked heard told answers) :
    LegTally p i asked heard told (s.markLeg i attempts) := by
  rw [State.markLeg, Store.move_eq hd (by rw [hs]; rfl)]
  exact tally_goesOn rfl (reportsIn_notes i _) fun _ => h

theorem tally_beginLeg (hs : d.status = .linkResolved)
    (h : ∃ answers, Linked p i asked heard told answers) :
    LegTally p i asked heard told (s.beginLeg i) := by
  obtain ⟨answers, hlinked⟩ := h
  rw [State.beginLeg, if_neg (by simp [hc]), Store.move_eq hd (by rw [hs]; rfl)]
  exact tally_goesOn rfl (reportsIn_notes i _) fun _ =>
    ⟨heard, told, answers, [], [], hlinked, (List.append_nil _).symm, (List.append_nil _).symm,
      Retry.tried_nil _ _⟩

include ht

theorem tally_attemptLeg {a : Account} (h : Downloading p i asked heard told a) :
    LegTally p i asked heard told (s.attemptLeg p now addition i a) := by
  rw [State.attemptLeg, if_neg (by simp [hc]), Store.get_eq_ok hd]
  split
  · exact tally_lost ht h.running rfl
  · dsimp only
    split
    · refine tally_waits ht ⟨a, rfl, ?_⟩
      rw [reportsIn_download, reportsIn_nil, List.append_nil]
      exact h
    · exact tally_goesOn rfl rfl fun _ => ⟨a, rfl, h⟩

omit hc in
theorem tally_refreshLeg (hs : d.status = downloadStatus broken) {a : Account}
    (h : ∃ b : Account, a = b.begin ∧ Downloading p i asked heard told b) :
    LegTally p i asked heard told (s.refreshLeg p addition i a) := by
  have hlead : d.status.leadsTo .linkResolved = true := by rw [hs]; cases broken <;> rfl
  rw [State.refreshLeg, State.linkRequest_eq hd, Store.move_eq hd hlead]
  refine tally_waits (s := { s with store := _ }) ht ?_
  rw [reportsIn_append, reportsIn_notes]
  exact (List.append_nil told).symm ▸ h

omit ht in
theorem tally_applyRefreshedLeg (hl : d.link.isSome = true) (links : LinkTable) {a : Account}
    (h : ∃ b : Account, a = b.begin ∧ Downloading p i asked heard told b) :
    LegTally p i asked heard told (s.applyRefreshedLeg p addition i links a) := by
  obtain ⟨store, entries, o, ha, hrel, ho⟩ := State.applyLinks_eq links hc hd
  rw [State.applyRefreshedLeg, ha, if_pos (hrel.link_isSome hd ho hl)]
  exact tally_goesOn rfl (reportsIn_notes i _) fun _ => h

omit hc in
theorem tally_resumeLeg (hs : d.status = .linkResolved) (hl : d.link.isSome = true) {a : Account}
    (h : ∃ b : Account, a = b.begin ∧ Downloading p i asked heard told b) :
    LegTally p i asked heard told (s.resumeLeg p addition i a) := by
  obtain ⟨l, hlink⟩ := Option.isSome_iff_exists.1 hl
  rw [State.resumeLeg_eq hd hs hlink]
  refine tally_waits (s := { s with store := _ }) ht ?_
  rw [reportsIn_append, reportsIn_notes]
  exact (List.append_nil told).symm ▸ h

end

/-- **Each leg but the last leads to the next stage.** -/
theorem leg_tally (hc : s.closed = false) {pt : Point} (hpt : ∀ r, pt ≠ .finish r)
    (ht : s.tasks[i]? = some phase) (hd : s.store.chunks[i]? = some d)
    (hfit : Fits i (some phase) (some pt) broken payloads d)
    (h : Tally p i asked heard told (some phase) (some pt)) :
    LegTally p i asked heard told (s.leg p now addition i pt) := by
  have hst : pt.Stands broken d.status := hfit.stands.2
  have linked : d.status = .linkResolved → d.link.isSome = true :=
    fun hs => hfit.linked (by rw [hs]; rfl)
  cases pt with
  | ensure =>
      obtain ⟨hno, rfl, rfl⟩ := h
      exact tally_ensureLeg hc hd hst.1 hno
  | ask request a => exact tally_askLeg hc ht request h
  | apply links attempts =>
      obtain ⟨hasked, signals, waits, o, rfl, rfl, hended, ho, rfl⟩ := h
      exact tally_applyLeg hc hd hasked hended ho
  | mark attempts => exact tally_markLeg hd hst.1 attempts h
  | begin => exact tally_beginLeg hc hd hst.1 h
  | attempt a => exact tally_attemptLeg hc ht hd h
  | refresh a => exact tally_refreshLeg ht hd hst h
  | applyRefreshed links a => exact tally_applyRefreshedLeg hc hd (linked hst.1) links h
  | resume a => exact tally_resumeLeg ht hd hst.1 (linked hst.1) h
  | finish r => exact absurd rfl (hpt r)

/-! ### Which leg asks for the link -/

theorem phase_of_set {tasks : List Phase} {next : Phase}
    (h : (tasks.set i next)[i]? = some phase) : phase = next := by
  rw [List.getElem?_set_self'] at h
  obtain ⟨_, -, rfl⟩ := Option.map_eq_some_iff.1 h
  rfl

theorem settleAttempt_asks {a b : Account} {result : Except FetchError Download}
    (h : (s.settleAttempt p addition i a result).state.tasks[i]? = some (.resolving b)) :
    s.tasks[i]? = some (.resolving b) := by
  cases result with
  | ok dl => exact h
  | error e =>
      obtain ⟨effects, e', n, hl⟩ | ⟨effects, next, hl, hnext⟩ :=
        State.settleAttempt_error p s addition i a e
      · rw [hl] at h
        exact h
      · rw [hl] at h
        have hb := phase_of_set h
        rcases hnext with rfl | ⟨c, rfl⟩ <;> cases hb

theorem settleLinks_asks {a b : Account} {result : Except FetchError LinkTable}
    (h : (s.settleLinks p addition i a result).state.tasks[i]? = some (.resolving b)) :
    s.tasks[i]? = some (.resolving b) := by
  cases result with
  | ok links => exact h
  | error e =>
      obtain ⟨effects, e', n, hl⟩ | ⟨effects, next, hl, hnext⟩ :=
        State.settleLinks_error p s addition i a e
      · rw [hl] at h
        exact h
      · rw [hl] at h
        have hb := phase_of_set h
        rcases hnext with rfl | ⟨c, rfl⟩ <;> cases hb

/-- A leg that asks for the link ends its stretch. -/
theorem leg_asks {pt : Point} {a : Account}
    (h : (s.leg p now addition i pt).state.tasks[i]? = some (.resolving a)) :
    s.tasks[i]? = some (.resolving a) ∨ (s.leg p now addition i pt).next = none := by
  have hruns := State.leg_runs p s now addition i pt
  generalize s.leg p now addition i pt = l at h hruns
  cases hruns with
  | givesUp | linked | unlinked | marked | begins | expired => exact Or.inl h
  | overruns => exact Or.inr rfl
  | fails => exact Or.inl (settleAttempt_asks h)
  | @loses store b hm e log =>
      exact Or.inl (settleAttempt_asks (s := { s with store }) h)
  | applied ha | unapplied ha | renews ha => exact Or.inl (applyLinks_tasks ha ▸ h)
  | unrenewed ha => exact Or.inl (applyLinks_tasks ha ▸ settleAttempt_asks h)
  | asks | downloads | refreshes | resumes | finishes => exact Or.inr rfl

/-- Hearing an answer asks for nothing. -/
theorem hear_asks {signal : Signal} {l : Leg} (hl : s.hear p addition i signal = some l)
    {a : Account} (h : l.state.tasks[i]? = some (.resolving a)) :
    s.tasks[i]? = some (.resolving a) := by
  cases State.hear_hears hl with
  | start | refreshed | asksAgain | asksNothing | triesAgain => exact h
  | resolved => exact settleLinks_asks h
  | unrefreshed | payload => exact settleAttempt_asks h

end

/-! ## What the end of a task adds up to -/

section

variable {p : Setup} {i : Nat} {asked : Prop} {heard : List Signal} {told : List ChunkEvent}
  {answers : List (Except FetchError LinkTable)} {outcomes : List (Except FetchError Download)}
  {r : TaskResult}

/-- **What a task reported before its end adds up**: the retries of its two operations are one less
each than the attempts, and the attempts that its end reports are those of its last operation. -/
structure Adds (asked : Prop) (told : List ChunkEvent) (attempts tries n : Nat) : Prop where
  asked : 0 < attempts ↔ asked
  retries : told.countP ChunkEvent.isRetry = (attempts - 1) + (tries - 1)
  /-- Nothing was reported of the end yet. -/
  running : told.any ChunkEvent.isLast = false
  last : n = if tries = 0 then attempts else tries

theorem Concludes.adds (h : Concludes p i asked heard told answers outcomes r) :
    Adds asked told answers.length outcomes.length r.attempts := by
  cases h with
  | unresolved h ended ho =>
      obtain ⟨hn, hlen⟩ := ended.attempts
      exact ⟨iff_of_true (by omega) h, by rw [countP_retryReports, hlen]; rfl,
        any_retryReports i _, hn⟩
  | unlinked h elapsed ended ho =>
      obtain ⟨hn, hlen⟩ := ended.attempts
      obtain ⟨-, hcount, hany⟩ := (Linked.resolved (i := i) h elapsed ended ho).adds
      exact ⟨iff_of_true (by omega) h, hcount, hany, hn⟩
  | tried hlinked ended =>
      obtain ⟨hn, hlen⟩ := ended.attempts
      obtain ⟨hasked, hcount, hany⟩ := hlinked.adds
      refine ⟨List.length_pos_iff.trans hasked, ?_, ?_, ?_⟩
      · rw [List.countP_append, hcount, countP_retryReports, hlen]
        rfl
      · rw [List.any_append, hany, any_retryReports]
        rfl
      · rw [if_neg (by omega)]
        exact hn

end

end ResultChunks.Provider
