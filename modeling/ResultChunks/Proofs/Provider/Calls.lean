import ResultChunks.Proofs.Provider.Invariant

/-!
# The calls that tasks make

A task calls the resolver or the downloader, one call at a time, and a leg that makes a call ends its
stretch. `dialogue` reads off the log which call the task of a chunk has under way and what its calls
have fetched. It agrees with the phase of the task: a task in the middle of a stretch has no call
under way, and one that waits for an answer has the call that it waits for.
-/

namespace ResultChunks.Provider

/-- A call of the resolver, or of the downloader with a link. -/
inductive Call where
  | links
  | payload (link : Link)
deriving DecidableEq, Repr, Inhabited

/-- What the task of a chunk and the world around it said to each other. -/
structure Dialogue where
  /-- The call that was not answered yet. -/
  underWay : Option Call := none
  /-- The payloads that arrived, each with the link of the call that it answers. -/
  fetched : List (Link × Download) := []
deriving Inhabited

namespace Dialogue

/-- The task makes a call. -/
def calls (t : Dialogue) (c : Call) : Dialogue := { t with underWay := some c }

/-- The task hears an answer. -/
def hears (t : Dialogue) : Signal → Dialogue
  | .links _ => { t with underWay := none }
  | .payload result =>
    { underWay := none
      fetched := t.fetched ++ match t.underWay, result with
        | some (.payload link), .ok dl => [(link, dl)]
        | _, _ => [] }
  | .start | .waitOver => t

end Dialogue

/-- The call that an effect makes, and the chunk whose task makes it. -/
def Effect.call : Effect → Option (Nat × Call)
  | .askLinks i _ => some (i, .links)
  | .download i link => some (i, .payload link)
  | _ => none

/-- What an event adds to the dialogue of a chunk's task. -/
def Event.tell (i : Nat) (t : Dialogue) : Event → Dialogue
  | .heard j signal => if j = i then t.hears signal else t
  | .did _ effect =>
    match effect.call with
    | some (j, c) => if j = i then t.calls c else t
    | none => t
  | .returned _ _ => t

/-- The dialogue of a chunk's task. -/
def dialogue (i : Nat) (log : List Event) : Dialogue := log.foldl (Event.tell i) {}

/-- The calls that effects make. -/
def callsIn (effects : List Effect) : List (Nat × Call) := effects.filterMap Effect.call

@[simp] theorem callsIn_nil : callsIn [] = [] := rfl

@[simp] theorem callsIn_append (effects more : List Effect) :
    callsIn (effects ++ more) = callsIn effects ++ callsIn more := List.filterMap_append

@[simp] theorem callsIn_notes (entries : List Log.Entry) : callsIn (notes entries) = [] := by
  rw [callsIn, notes, List.filterMap_map]
  exact List.filterMap_eq_nil_iff.2 fun _ _ => rfl

@[simp] theorem callsIn_note (level : Log.Level) (text : String) (effects : List Effect) :
    callsIn (note level text :: effects) = callsIn effects := rfl

@[simp] theorem callsIn_report (event : ChunkEvent) (effects : List Effect) :
    callsIn (.report event :: effects) = callsIn effects := rfl

@[simp] theorem callsIn_sleep (i : Nat) (delay : Duration) (effects : List Effect) :
    callsIn (.sleep i delay :: effects) = callsIn effects := rfl

@[simp] theorem callsIn_spawn (i : Nat) (effects : List Effect) :
    callsIn (.spawn i :: effects) = callsIn effects := rfl

@[simp] theorem callsIn_wake (effects : List Effect) :
    callsIn (.wake :: effects) = callsIn effects := rfl

@[simp] theorem callsIn_askLinks (i : Nat) (request : LinkRequest) (effects : List Effect) :
    callsIn (.askLinks i request :: effects) = (i, .links) :: callsIn effects := rfl

@[simp] theorem callsIn_download (i : Nat) (link : Link) (effects : List Effect) :
    callsIn (.download i link :: effects) = (i, .payload link) :: callsIn effects := rfl

/-- What only tells makes no call. -/
theorem callsIn_of_tells {effects : List Effect} (h : effects.all Effect.tells = true) :
    callsIn effects = [] := by
  refine List.filterMap_eq_nil_iff.2 fun effect he => ?_
  have htells := List.all_eq_true.1 h effect he
  cases effect with
  | report | wake | note => rfl
  | spawn | askLinks | download | sleep => cases htells

/-! ## What the log says of a dialogue -/

theorem foldl_tell_did (i : Nat) (now : Moment) (t : Dialogue) (effects : List Effect) :
    (effects.map (Event.did now)).foldl (Event.tell i) t =
      (callsIn effects).foldl (fun t c => if c.1 = i then t.calls c.2 else t) t := by
  induction effects generalizing t with
  | nil => rfl
  | cons e es ih =>
      rw [List.map_cons, List.foldl_cons, ih, Event.tell]
      cases he : e.call with
      | none => rw [show callsIn (e :: es) = callsIn es from List.filterMap_cons_none he]
      | some c =>
          rw [show callsIn (e :: es) = c :: callsIn es from List.filterMap_cons_some he]
          rfl

theorem dialogue_did (i : Nat) (now : Moment) (log : List Event) (effects : List Effect) :
    dialogue i (log ++ effects.map (.did now)) =
      (callsIn effects).foldl (fun t c => if c.1 = i then t.calls c.2 else t) (dialogue i log) := by
  rw [dialogue, List.foldl_append, foldl_tell_did]
  rfl

/-- Effects that make no call leave every dialogue alone. -/
theorem dialogue_quiet {i : Nat} {effects : List Effect} (h : callsIn effects = []) (now : Moment)
    (log : List Event) : dialogue i (log ++ effects.map (.did now)) = dialogue i log := by
  rw [dialogue_did, h]
  rfl

theorem dialogue_heard (i : Nat) (log : List Event) (signal : Signal) :
    dialogue i (log ++ [.heard i signal]) = (dialogue i log).hears signal := by
  rw [dialogue, List.foldl_append]
  exact if_pos rfl

theorem dialogue_heard_ne {i j : Nat} (h : j ≠ i) (log : List Event) (signal : Signal) :
    dialogue j (log ++ [.heard i signal]) = dialogue j log := by
  rw [dialogue, List.foldl_append]
  exact if_neg h.symm

theorem dialogue_returned (i k : Nat) (log : List Event) (answer : Answer) :
    dialogue i (log ++ [.returned k answer]) = dialogue i log := by
  rw [dialogue, List.foldl_append]
  rfl

/-! ## Each leg makes the call that its task waits for then -/

/-- The call that a task has under way fits its phase. -/
def Phase.Awaits : Option Phase → Option Call → Prop
  | some (.resolving _), c | some (.refreshing _), c => c = some .links
  | some (.downloading _), c => ∃ link, c = some (.payload link)
  | _, c => c = none

/-- The effects of a leg make one call if its task waits for an answer then, and none otherwise. A
download is asked for with the link that is stored for the chunk. -/
def LegCalls (i : Nat) (l : Leg) : Prop :=
  ∃ c, callsIn l.effects = (c.map fun c => (i, c)).toList
    ∧ (if l.next.isSome then c = none else Phase.Awaits l.state.tasks[i]? c)
    ∧ ∀ link, c = some (.payload link) →
        ∃ d, l.state.store.chunks[i]? = some d ∧ d.link = some link

section

variable {p : Setup} {s : State} {now : Moment} {addition : Duration} {i : Nat} {phase : Phase}

theorem legCalls_goesOn {l : Leg} (h : callsIn l.effects = []) (hn : l.next.isSome = true) :
    LegCalls i l := ⟨none, h, by rw [if_pos hn], nofun⟩

theorem legCalls_waits (ht : s.tasks[i]? = some phase) {next : Phase} {effects : List Effect}
    (h : callsIn effects = []) (hp : Phase.Awaits (some next) none) :
    LegCalls i ⟨s.setPhase i next, effects, none⟩ := by
  refine ⟨none, h, ?_, nofun⟩
  change Phase.Awaits (s.tasks.set i next)[i]? none
  rw [phase_set ht]
  exact hp

theorem legCalls_asks (ht : s.tasks[i]? = some phase) {next : Phase} {effects : List Effect}
    {call : Call} (h : callsIn effects = [(i, call)]) (hp : Phase.Awaits (some next) (some call))
    (hlink : ∀ link, call = .payload link →
      ∃ d, s.store.chunks[i]? = some d ∧ d.link = some link) :
    LegCalls i ⟨s.setPhase i next, effects, none⟩ := by
  refine ⟨some call, h, ?_, fun link hl => hlink link (Option.some.inj hl)⟩
  change Phase.Awaits (s.tasks.set i next)[i]? (some call)
  rw [phase_set ht]
  exact hp

theorem LegCalls.after {l : Leg} (h : LegCalls i l) {effects : List Effect}
    (he : callsIn effects = []) : LegCalls i (l.after effects) := by
  obtain ⟨c, h1, h2⟩ := h
  refine ⟨c, ?_, h2⟩
  rw [Leg.effects_after, callsIn_append, he]
  exact h1

theorem settleAttempt_calls (ht : s.tasks[i]? = some phase) (a : Retry.Account)
    (result : Except FetchError Download) :
    LegCalls i (s.settleAttempt p addition i a result) := by
  unfold State.settleAttempt
  rcases Retry.settle p.config.retry .get addition a result with _ | ⟨o⟩ | ⟨cls, delay, b⟩
  · exact legCalls_waits ht (callsIn_notes _) rfl
  · exact legCalls_goesOn (callsIn_notes _) rfl
  · exact legCalls_waits ht (by simp) rfl

theorem settleLinks_calls (ht : s.tasks[i]? = some phase) (a : Retry.Account)
    (result : Except FetchError LinkTable) :
    LegCalls i (s.settleLinks p addition i a result) := by
  unfold State.settleLinks
  rcases Retry.settle p.config.retry p.resolverMethod addition a result with
    _ | ⟨r, n, waited⟩ | ⟨cls, delay, b⟩
  · exact legCalls_waits ht (callsIn_notes _) rfl
  · cases r with
    | ok links => exact legCalls_goesOn (callsIn_notes _) rfl
    | error e =>
        refine legCalls_goesOn ?_ rfl
        rw [Leg.effects_after, callsIn_append, callsIn_notes]
        rfl
  · exact legCalls_waits ht (by simp) rfl

theorem applyLinks_calls {s' : State} {links : LinkTable} {effects : List Effect}
    {checked : Except FetchError Unit} (h : s.applyLinks i links = (s', effects, checked)) :
    callsIn effects = [] := by
  unfold State.applyLinks at h
  split at h
  · obtain ⟨-, h⟩ := Prod.mk.inj h
    obtain ⟨rfl, -⟩ := Prod.mk.inj h
    rfl
  · obtain ⟨-, h⟩ := Prod.mk.inj h
    obtain ⟨rfl, -⟩ := Prod.mk.inj h
    exact callsIn_notes _

theorem applyLinks_tasks {s' : State} {links : LinkTable} {effects : List Effect}
    {checked : Except FetchError Unit} (h : s.applyLinks i links = (s', effects, checked)) :
    s'.tasks = s.tasks := by
  unfold State.applyLinks at h
  split at h <;> (obtain ⟨rfl, -⟩ := Prod.mk.inj h; rfl)

theorem complete_tasks (s : State) (now : Moment) (i : Nat) (r : TaskResult) :
    (s.complete now i r).state.tasks = s.tasks.set i .ended := by
  rw [State.complete]
  dsimp only
  split
  · rfl
  · rw [Move.state_andThen]
    split
    · rw [State.storeChunk]
      dsimp only
      split <;> rfl
    · rfl

theorem complete_calls (s : State) (now : Moment) (i : Nat) (r : TaskResult) :
    callsIn (s.complete now i r).effects = [] := callsIn_of_tells (State.complete_tells s now i r)

/-- **Each leg makes the call that its task waits for then.** -/
theorem leg_calls (ht : s.tasks[i]? = some phase) (pt : Point) :
    LegCalls i (s.leg p now addition i pt) := by
  -- the link of a download is the one that is stored
  have stored : ∀ {t : State} {d : Descriptor} {link : Link}, t.store.get i = .ok d →
      d.link = some link → ∀ l, Call.payload link = .payload l →
      ∃ d, t.store.chunks[i]? = some d ∧ d.link = some l := by
    intro t d link hg hlink l hl
    obtain rfl := Call.payload.inj hl
    exact ⟨d, (Store.of_get_eq_ok hg).2, hlink⟩
  have hruns := State.leg_runs p s now addition i pt
  generalize s.leg p now addition i pt = l at hruns
  cases hruns with
  | givesUp => exact LegCalls.after (legCalls_goesOn rfl rfl) (callsIn_notes _)
  | fails => exact (settleAttempt_calls ht _ _).after (callsIn_notes _)
  | linked | unlinked | marked | begins => exact legCalls_goesOn (callsIn_notes _) rfl
  | overruns => exact legCalls_waits ht rfl rfl
  | expired => exact legCalls_goesOn rfl rfl
  | asks => exact legCalls_asks ht rfl rfl (by simp)
  | applied ha => exact legCalls_goesOn (by simp [applyLinks_calls ha]) rfl
  | unapplied ha => exact LegCalls.after (legCalls_goesOn rfl rfl) (by simp [applyLinks_calls ha])
  | downloads _ hg hlink =>
      exact legCalls_asks ht rfl ⟨_, rfl⟩ (stored hg (Option.filter_eq_some_iff.1 hlink).1)
  | @refreshes a request store hr hm log entry =>
      refine legCalls_asks (s := { s with store }) ht ?_ rfl (by simp)
      rw [callsIn_append, callsIn_notes]
      rfl
  | renews ha => exact legCalls_goesOn (applyLinks_calls ha) rfl
  | unrenewed ha =>
      rw [← applyLinks_tasks ha] at ht
      exact (settleAttempt_calls ht _ _).after (applyLinks_calls ha)
  | @resumes store a d link hm hg hlink log =>
      exact legCalls_asks (s := { s with store }) ht (by simp) ⟨link, rfl⟩ (stored hg hlink)
  | @loses store a hm e log =>
      exact (settleAttempt_calls (s := { s with store }) ht _ _).after (callsIn_notes _)
  | finishes r =>
      refine ⟨none, complete_calls s now i r, ?_, nofun⟩
      change Phase.Awaits (s.complete now i r).state.tasks[i]? none
      rw [complete_tasks, phase_set ht]
      rfl

/-- **So does what a task does with an answer.** -/
theorem hear_calls {signal : Signal} {l : Leg} (hl : s.hear p addition i signal = some l) :
    LegCalls i l := by
  cases State.hear_hears hl with
  | start | refreshed | asksAgain | asksNothing | triesAgain => exact legCalls_goesOn rfl rfl
  | resolved ht => exact settleLinks_calls ht _ _
  | unrefreshed ht | payload ht => exact settleAttempt_calls ht _ _

/-! ## The legs of a reader make no calls -/

theorem moveOn_calls (p : Setup) (s : State) : callsIn (s.moveOn p).2.1 = [] :=
  callsIn_of_tells (State.moveOn_tells p s)

theorem fill_calls (p : Setup) (s : State) : callsIn (s.fill p).effects = [] := by
  fun_induction State.fill p s with
  | case1 s hm ih => rw [Move.effects_after, callsIn_append, ih]; rfl
  | case2 s hm => rfl

theorem look_calls (s : State) (waited : Duration) (i : Nat) :
    callsIn (s.look waited i).2.1 = [] := callsIn_of_tells (State.look_tells s waited i)

theorem close_calls (s : State) : callsIn s.close.effects = [] :=
  callsIn_of_tells (State.close_tells s)

end

/-! ## The log agrees with the phases -/

theorem dialogue_calls {i : Nat} {log : List Event} {effects : List Effect} {c : Option Call}
    (h : callsIn effects = (c.map fun c => (i, c)).toList)
    (hnone : (dialogue i log).underWay = none) (now : Moment) :
    dialogue i (log ++ effects.map (.did now)) = { dialogue i log with underWay := c } := by
  rw [dialogue_did, h]
  cases c with
  | none =>
      change dialogue i log = _
      rw [← hnone]
  | some c => exact if_pos rfl

theorem dialogue_calls_ne {i j : Nat} {effects : List Effect} {c : Option Call} (hj : j ≠ i)
    (h : callsIn effects = (c.map fun c => (i, c)).toList) (now : Moment) (log : List Event) :
    dialogue j (log ++ effects.map (.did now)) = dialogue j log := by
  rw [dialogue_did, h]
  cases c with
  | none => rfl
  | some c => exact if_neg hj.symm

section

variable {p : Setup} {s : State} {now : Moment} {addition : Duration} {i : Nat} {t : Dialogue}
  {signal : Signal} {l : Leg}

/-- A task that heard an answer has no call under way. -/
theorem underWay_hears (hl : s.hear p addition i signal = some l)
    (ht : Phase.Awaits s.tasks[i]? t.underWay) : (t.hears signal).underWay = none := by
  cases State.hear_hears hl with
  | resolved | refreshed | unrefreshed | payload => rfl
  | start hph | asksAgain hph | asksNothing hph | triesAgain hph =>
      rw [hph] at ht
      exact ht

/-- A payload that arrives answers a download. -/
theorem fetched_hears (hl : s.hear p addition i signal = some l)
    (ht : Phase.Awaits s.tasks[i]? t.underWay) :
    ∃ more, (t.hears signal).fetched = t.fetched ++ more ∧ more.map Prod.snd = signal.brings
      ∧ ∀ e ∈ more, t.underWay = some (.payload e.1) := by
  cases State.hear_hears hl with
  | start | refreshed | unrefreshed | asksAgain | asksNothing | triesAgain =>
      exact ⟨[], (List.append_nil _).symm, rfl, nofun⟩
  | resolved _ result => exact ⟨[], (List.append_nil _).symm, by cases result <;> rfl, nofun⟩
  | payload hph result =>
      rw [hph] at ht
      obtain ⟨link, hlink⟩ := ht
      cases result with
      | error e => exact ⟨[], by simp [Dialogue.hears], rfl, nofun⟩
      | ok dl =>
          refine ⟨[(link, dl)], by simp [Dialogue.hears, hlink], rfl, ?_⟩
          intro e he
          obtain rfl := List.mem_singleton.1 he
          exact hlink

theorem leg_tasks_ne {j : Nat} (hj : j ≠ i) (pt : Point) :
    (s.leg p now addition i pt).state.tasks[j]? = s.tasks[j]? := by
  by_cases hpt : ∃ r, pt = .finish r
  · obtain ⟨r, rfl⟩ := hpt
    change (s.complete now i r).state.tasks[j]? = _
    rw [complete_tasks]
    exact List.getElem?_set_ne hj.symm
  · exact (State.leg_quiet p s now addition i (not_exists.1 hpt)).tasks_ne hj

theorem leg_next (s : State) (now : Moment) (addition : Duration) (i : Nat) (pt : Point) :
    (s.leg p now addition i pt).state.next = s.next := by
  by_cases hpt : ∃ r, pt = .finish r
  · obtain ⟨r, rfl⟩ := hpt
    change (s.complete now i r).state.tasks.length = _
    rw [complete_tasks, List.length_set]
    rfl
  · exact (State.leg_quiet p s now addition i (not_exists.1 hpt)).next

/-- A fill leaves the tasks of claimed chunks alone. -/
theorem fill_tasks {phase : Phase} (h : s.tasks[i]? = some phase) :
    (s.fill p).state.tasks[i]? = some phase := by
  refine State.fill_keeps (P := fun t => t.tasks[i]? = some phase) ?_ h
  intro t _ ht
  exact (List.getElem?_append_left (State.lt_next ht)).trans ht

theorem next_fill (s : State) : s.next ≤ (s.fill p).state.next := by
  refine State.fill_keeps (P := fun t => s.next ≤ t.next) ?_ (Nat.le_refl _)
  intro t _ ht
  have hlen : (t.claim p).state.next = t.next + 1 := List.length_append
  omega

theorem close_tasks (s : State) : s.close.state.tasks = s.tasks := by
  rw [State.close]
  split <;> rfl

/-- A fill adds tasks that have no call under way. -/
theorem fill_awaits {c : Option Call} (h : Phase.Awaits s.tasks[i]? c) :
    Phase.Awaits (s.fill p).state.tasks[i]? c := by
  refine State.fill_keeps (P := fun s => Phase.Awaits s.tasks[i]? c) ?_ h
  intro s _ h
  change Phase.Awaits (s.tasks ++ [Phase.claimed])[i]? c
  -- a chunk that was not claimed had no call under way, and a claimed task has none either
  rcases Nat.lt_or_ge i s.tasks.length with hlt | hge
  · rw [List.getElem?_append_left hlt]
    exact h
  · rw [List.getElem?_eq_none hge] at h
    rw [List.getElem?_append_right hge]
    cases i - s.tasks.length <;> exact h

end

namespace World

variable {p : Setup} {w w' : World}

/-- The dialogue of a chunk's task agrees with where the task stands and what it heard. -/
structure Talks (w : World) (i : Nat) : Prop where
  underWay : if (w.points i).isSome then (dialogue i w.log).underWay = none
    else Phase.Awaits w.state.tasks[i]? (dialogue i w.log).underWay
  fetched : (dialogue i w.log).fetched.map Prod.snd = w.payloads i

theorem Talks.awaits {i : Nat} (h : w.Talks i) (hp : w.points i = none) :
    Phase.Awaits w.state.tasks[i]? (dialogue i w.log).underWay := by
  have := h.underWay
  rw [hp] at this
  exact this

theorem Talks.idle {i : Nat} (h : w.Talks i) {pt : Point} (hp : w.points i = some pt) :
    (dialogue i w.log).underWay = none := by
  have := h.underWay
  rw [hp] at this
  exact this

/-- Once an answer is heard no call is under way, and a payload in it is that of the call before. -/
theorem Talks.heard {i : Nat} (h : w.Talks i) (hp : w.points i = none) {addition : Duration}
    {signal : Signal} {l : Leg} (hl : w.state.hear p addition i signal = some l) :
    (dialogue i (w.hears i signal).log).underWay = none
      ∧ ∃ more, (dialogue i (w.hears i signal).log).fetched = (dialogue i w.log).fetched ++ more
        ∧ more.map Prod.snd = signal.brings
        ∧ ∀ e ∈ more, (dialogue i w.log).underWay = some (.payload e.1) := by
  rw [show dialogue i (w.hears i signal).log = (dialogue i w.log).hears signal from
    dialogue_heard i w.log signal]
  exact ⟨underWay_hears hl (h.awaits hp), fetched_hears hl (h.awaits hp)⟩

theorem dialogue_runReader {k : Nat} {now : Moment} {wait : Nat → Reader}
    {r : State × List Effect × Progress} (h : callsIn r.2.1 = []) (i : Nat) :
    dialogue i (w.runReader now k wait r).log = dialogue i w.log := by
  obtain ⟨s, effects, answer | next⟩ := r
  · change dialogue i (w.log ++ effects.map (.did now) ++ [Event.returned k answer]) = _
    rw [dialogue_returned]
    exact dialogue_quiet h now _
  · exact dialogue_quiet h now _

theorem talks_runReader {k : Nat} {now : Moment} {wait : Nat → Reader}
    {r : State × List Effect × Progress} {i : Nat} (h : w.Talks i) (hr : callsIn r.2.1 = [])
    (ht : ∀ {c : Option Call}, Phase.Awaits w.state.tasks[i]? c → Phase.Awaits r.1.tasks[i]? c) :
    (w.runReader now k wait r).Talks i where
  underWay := by
    rw [points_runReader, dialogue_runReader hr, state_runReader]
    cases hp : w.points i with
    | none => exact ht (h.awaits hp)
    | some pt => exact h.idle hp
  fetched := by
    rw [dialogue_runReader hr, payloads_runReader]
    exact h.fetched

/-- A leg of a task keeps the dialogues and the phases in step. -/
theorem talks_runLeg {i : Nat} {l : Leg} (now : Moment) (hl : LegCalls i l)
    (ht : ∀ {j : Nat}, j ≠ i → l.state.tasks[j]? = w.state.tasks[j]?)
    (hidle : (dialogue i w.log).underWay = none)
    (hfetched : (dialogue i w.log).fetched.map Prod.snd = w.payloads i)
    (h : ∀ j, j ≠ i → w.Talks j) (j : Nat) : (w.runLeg now i l).Talks j := by
  obtain ⟨c, hc, hnext, -⟩ := hl
  by_cases hj : j = i
  · subst hj
    have hlog : dialogue j (w.runLeg now j l).log = { dialogue j w.log with underWay := c } :=
      dialogue_calls hc hidle now
    constructor
    · rw [hlog, points_runLeg, Function.update_self]
      exact hnext
    · rw [hlog, payloads_runLeg]
      exact hfetched
  · have hlog : dialogue j (w.runLeg now i l).log = dialogue j w.log :=
      dialogue_calls_ne hj hc now _
    constructor
    · rw [hlog, points_runLeg, Function.update_of_ne hj, state_runLeg, ht hj]
      exact (h j hj).underWay
    · rw [hlog, payloads_runLeg]
      exact (h j hj).fetched

/-- **In every reachable world with an open provider the log agrees with the phases.** -/
theorem talks_reachable {m : Manifest} {config : FetchConfig} {method : Method} {opened : Move}
    (hcreate : create m config method = .ok (p, opened)) (h : Reachable p opened w) :
    w.state.closed = false → ∀ i, w.Talks i := by
  refine h.keeps (P := fun w => w.state.closed = false → ∀ i, w.Talks i) ?_ ?_
  · intro now _ i
    obtain ⟨rfl, entry, rfl⟩ := create_eq hcreate
    have hquiet : callsIn (((State.ofManifest m).fill (Setup.ofManifest m config method)).after
        [Effect.note entry]).effects = [] := fill_calls _ _
    have hlog : dialogue i (start now _).log = {} := dialogue_quiet hquiet now []
    constructor
    · rw [hlog]
      exact fill_awaits (s := State.ofManifest m) rfl
    · rw [hlog, payloads_start]
      rfl
  · intro w w' hw ih htaken hopen'
    have hopen := htaken.open hopen'
    have hsound := sound_reachable hcreate hw hopen
    have ih := ih hopen
    cases htaken with
    | @heard i signal l now addition hp hl =>
        obtain ⟨hidle, more, hmore, hbrings, -⟩ := (ih i).heard hp hl
        refine talks_runLeg now (hear_calls hl) (State.hear_quiet hl).tasks_ne hidle ?_ ?_
        · rw [hmore, List.map_append, hbrings, (ih i).fetched, payloads_hears]
        · intro j hj
          have hlog : dialogue j (w.hears i signal).log = dialogue j w.log :=
            dialogue_heard_ne hj _ _
          constructor
          · rw [hlog]; exact (ih j).underWay
          · rw [hlog, payloads_hears_ne w signal hj]; exact (ih j).fetched
    | @ran i pt now addition hp =>
        obtain ⟨phase, hph, -⟩ := hsound.running hp
        exact talks_runLeg now (leg_calls hph pt) (fun hj => leg_tasks_ne hj pt)
          ((ih i).idle hp) (ih i).fetched (fun j _ => ih j)
    | called now hk =>
        intro i
        refine talks_runReader (ih i) (moveOn_calls p w.state) ?_
        obtain ⟨store, held, current, hframe⟩ := State.moveOn_frame p w.state
        rw [hframe]
        exact id
    | filled now hk => exact fun i => talks_runReader (ih i) (fill_calls p w.state) fill_awaits
    | @looked k n now hk =>
        intro i
        refine talks_runReader (ih i) (look_calls w.state now.elapsed n) ?_
        obtain ⟨current, surfaced, hframe⟩ := State.look_frame w.state now.elapsed n
        rw [hframe]
        exact id
    | abandoned hk => exact fun i => ⟨(ih i).underWay, (ih i).fetched⟩
    | closed now => exact absurd hopen' (not_open_of_close w now)

end World

end ResultChunks.Provider
