import ResultChunks.Provider.Task

/-!
# The legs of a stretch

A stretch of a task takes the lock several times, and between two times anything else may happen:
another task may store links, the consumer may move on, the provider may be closed. A leg is what
runs while the lock is held once. `Point` says which leg is next, `leg` runs it, and `hear` is what a
waiting task does with the answer it waited for, before it takes the lock at all.

`proceed` runs legs one after the other. `stretch_eq` says that this is what the steps of a task do,
so whatever holds of all interleavings of legs holds of the stretches as well.
-/

namespace ResultChunks.Provider

/-- The leg that a task runs next. -/
inductive Point where
  /-- Look for a usable link. -/
  | ensure
  /-- Ask for the link that is missing. -/
  | ask (request : LinkRequest) (account : Retry.Account)
  /-- Store the links that were asked for first. -/
  | apply (links : LinkTable) (attempts : Nat)
  /-- Note that the chunk has its link. -/
  | mark (attempts : Nat)
  /-- Note that the download begins. -/
  | begin
  /-- Look at the link before an attempt. -/
  | attempt (account : Retry.Account)
  /-- Ask for a new link in the middle of an attempt. -/
  | refresh (account : Retry.Account)
  /-- Store the links that were asked for in the middle of an attempt. -/
  | applyRefreshed (links : LinkTable) (account : Retry.Account)
  /-- Go back to downloading, with the link that is stored now. -/
  | resume (account : Retry.Account)
  /-- Settle the chunk. -/
  | finish (result : TaskResult)
deriving Inhabited

/-- The state after a leg, its effects, and the leg that follows in the same stretch. -/
structure Leg where
  state : State
  effects : List Effect
  next : Option Point
deriving Inhabited

namespace Leg

/-- A leg that ends its stretch. -/
def last (m : Move) : Leg := ⟨m.state, m.effects, none⟩

/-- Effects in front of those of a leg. -/
def after (effects : List Effect) (l : Leg) : Leg := ⟨l.state, effects ++ l.effects, l.next⟩

@[simp] theorem state_after (effects : List Effect) (l : Leg) :
    (l.after effects).state = l.state := rfl

@[simp] theorem effects_after (effects : List Effect) (l : Leg) :
    (l.after effects).effects = effects ++ l.effects := rfl

@[simp] theorem next_after (effects : List Effect) (l : Leg) :
    (l.after effects).next = l.next := rfl

end Leg

/-- What a waiting task is woken with. -/
inductive Signal where
  /-- It gets to run for the first time. -/
  | start
  /-- The answer to a question for links. -/
  | links (result : Except FetchError LinkTable)
  /-- The answer to a download. -/
  | payload (result : Except FetchError Download)
  /-- Its wait is over. -/
  | waitOver
deriving Inhabited

/-- How far a leg is from the end of its stretch. -/
def Point.rank : Point → Nat
  | .ensure => 7
  | .apply _ _ => 6
  | .mark _ => 5
  | .begin => 4
  | .attempt _ => 3
  | .refresh _ | .applyRefreshed _ _ => 2
  | .ask _ _ | .resume _ => 1
  | .finish _ => 0

namespace State

/-- End the task with an error, in a leg of its own. -/
def giveUp (s : State) (error : FetchError) (attempts : Nat) : Leg :=
  ⟨s, [], some (.finish ⟨.error error, attempts⟩)⟩

/-- Settle an attempt at the payload. -/
def settleAttempt (p : Setup) (s : State) (addition : Duration) (i : Nat) (a : Retry.Account)
    (result : Except FetchError Download) : Leg :=
  let turn := Retry.settle p.config.retry .get addition a result
  let log := notes (Retry.resultLog p.config.retry .get a result turn)
  match turn with
  | none => ⟨s.setPhase i .lost, log, none⟩
  | some (.finished o) => ⟨s, log, some (.finish ⟨o.result, o.attempts⟩)⟩
  | some (.pause cls delay b) =>
    ⟨s.setPhase i (.downloadPause b), log ++ [.report (.retry i cls a.attempts delay),
      .sleep i delay], none⟩

/-- Settle an attempt at resolving links. -/
def settleLinks (p : Setup) (s : State) (addition : Duration) (i : Nat) (a : Retry.Account)
    (result : Except FetchError LinkTable) : Leg :=
  let turn := Retry.settle p.config.retry p.resolverMethod addition a result
  let log := notes (Retry.resultLog p.config.retry p.resolverMethod a result turn)
  match turn with
  | none => ⟨s.setPhase i .lost, log, none⟩
  | some (.finished o) =>
    match o.result with
    | .ok links => ⟨s, log, some (.apply links o.attempts)⟩
    | .error e => (s.giveUp (.linkResolution [i] e) o.attempts).after log
  | some (.pause cls delay b) =>
    ⟨s.setPhase i (.resolvePause b), log ++ [.report (.retry i cls a.attempts delay),
      .sleep i delay], none⟩

/-- Look for a usable link. -/
def ensureLeg (p : Setup) (s : State) (now : Moment) (i : Nat) : Leg :=
  if s.closed then s.giveUp .closed 0
  else
    match s.store.get i with
    | .error e => s.giveUp e 0
    | .ok d =>
      if (d.freshLink now.wall p.config.expiryBuffer).isSome then
        match s.store.move i .linkResolved with
        | .error e => s.giveUp e 0
        | .ok store =>
          ⟨{ s with store }, notes (s.store.moveLogOf i .linkResolved), some .begin⟩
      else
        ⟨s, [note .debug s!"Chunk {i} has no usable link, resolving"],
          some (.ask ⟨i, d.rowOffset⟩ {})⟩

/-- Ask for the link that is missing. -/
def askLeg (s : State) (i : Nat) (request : LinkRequest) (a : Retry.Account) : Leg :=
  if s.closed then s.giveUp (.linkResolution [i] .cancelled) a.attempts
  else if a.full then ⟨s.setPhase i .lost, [], none⟩
  else ⟨s.setPhase i (.resolving a.begin), [.askLinks i request], none⟩

/-- Store the links that were asked for first. -/
def applyLeg (s : State) (now : Moment) (i : Nat) (links : LinkTable) (attempts : Nat) : Leg :=
  let event := Effect.report (.linksResolved [i] links.length attempts now.elapsed)
  match s.applyLinks i links with
  | (s, effects, .error e) => (s.giveUp e attempts).after (event :: effects)
  | (s, effects, .ok ()) => ⟨s, event :: effects, some (.mark attempts)⟩

/-- Note that the chunk has its link. -/
def markLeg (s : State) (i : Nat) (attempts : Nat) : Leg :=
  let effects := notes (s.store.moveLogOf i .linkResolved)
  match s.store.move i .linkResolved with
  | .error e => (s.giveUp e attempts).after effects
  | .ok store => ⟨{ s with store }, effects, some .begin⟩

/-- Note that the download begins. -/
def beginLeg (s : State) (i : Nat) : Leg :=
  if s.closed then s.giveUp .closed 0
  else
    match s.store.move i .downloading with
    | .error e => s.giveUp e 0
    | .ok store =>
      ⟨{ s with store }, notes (s.store.moveLogOf i .downloading), some (.attempt {})⟩

/-- Look at the link before an attempt. -/
def attemptLeg (p : Setup) (s : State) (now : Moment) (addition : Duration) (i : Nat)
    (a : Retry.Account) : Leg :=
  if s.closed then s.giveUp .cancelled a.attempts
  else if a.full then ⟨s.setPhase i .lost, [], none⟩
  else
    let a := a.begin
    match s.store.get i with
    | .error e => settleAttempt p s addition i a (.error e)
    | .ok d =>
      match d.freshLink now.wall p.config.expiryBuffer with
      | some link => ⟨s.setPhase i (.downloading a), [.download i link], none⟩
      | none => ⟨s, [], some (.refresh a)⟩

/-- Ask for a new link in the middle of an attempt. -/
def refreshLeg (p : Setup) (s : State) (addition : Duration) (i : Nat) (a : Retry.Account) : Leg :=
  match s.linkRequest i, s.store.move i .linkResolved with
  | .ok request, .ok store =>
    ⟨{ s with store }.setPhase i (.refreshing a),
      notes (s.store.moveLogOf i .linkResolved) ++
        [note .debug s!"Link for chunk {i} expired during download, refreshing",
         .askLinks i request], none⟩
  | .error e, _ => settleAttempt p s addition i a (.error e)
  | _, .error e => settleAttempt p s addition i a (.error e)

/-- Store the links that were asked for in the middle of an attempt. -/
def applyRefreshedLeg (p : Setup) (s : State) (addition : Duration) (i : Nat) (links : LinkTable)
    (a : Retry.Account) : Leg :=
  match s.applyLinks i links with
  | (s, effects, .error e) => (settleAttempt p s addition i a (.error e)).after effects
  | (s, effects, .ok ()) => ⟨s, effects, some (.resume a)⟩

/-- Go back to downloading, with the link that is stored now. -/
def resumeLeg (p : Setup) (s : State) (addition : Duration) (i : Nat) (a : Retry.Account) : Leg :=
  let effects := notes (s.store.moveLogOf i .downloading)
  match s.store.move i .downloading with
  | .error e => (settleAttempt p s addition i a (.error e)).after effects
  | .ok store =>
    let s := { s with store }
    match (s.store.get i).map Descriptor.link with
    | .ok (some link) => ⟨s.setPhase i (.downloading a), effects ++ [.download i link], none⟩
    | .ok none =>
      (settleAttempt p s addition i a (.error (.invalidState (.lostLink i)))).after effects
    | .error e => (settleAttempt p s addition i a (.error e)).after effects

/-- Run the leg at a point. -/
def leg (p : Setup) (s : State) (now : Moment) (addition : Duration) (i : Nat) : Point → Leg
  | .ensure => ensureLeg p s now i
  | .ask request a => askLeg s i request a
  | .apply links attempts => applyLeg s now i links attempts
  | .mark attempts => markLeg s i attempts
  | .begin => beginLeg s i
  | .attempt a => attemptLeg p s now addition i a
  | .refresh a => refreshLeg p s addition i a
  | .applyRefreshed links a => applyRefreshedLeg p s addition i links a
  | .resume a => resumeLeg p s addition i a
  | .finish r => .last (s.complete now i r)

/-- What a waiting task does with a signal before it takes the lock. It hears only the one it
waits for. -/
def hear (p : Setup) (s : State) (addition : Duration) (i : Nat) : Signal → Option Leg
  | .start =>
    match s.tasks[i]? with
    | some .claimed => some ⟨s, [], some .ensure⟩
    | _ => none
  | .links result =>
    match s.tasks[i]? with
    | some (.resolving a) => some (settleLinks p s addition i a result)
    | some (.refreshing a) =>
      match result with
      | .ok links => some ⟨s, [], some (.applyRefreshed links a)⟩
      | .error e => some (settleAttempt p s addition i a (.error e))
    | _ => none
  | .payload result =>
    match s.tasks[i]? with
    | some (.downloading a) => some (settleAttempt p s addition i a result)
    | _ => none
  | .waitOver =>
    match s.tasks[i]? with
    | some (.resolvePause a) =>
      match s.linkRequest i with
      | .ok request => some ⟨s, [], some (.ask request a)⟩
      | .error e => some (s.giveUp e a.attempts)
    | some (.downloadPause a) => some ⟨s, [], some (.attempt a)⟩
    | _ => none

/-- What a waiting task does with each signal that it hears, one case for each. -/
inductive Hears (p : Setup) (s : State) (addition : Duration) (i : Nat) : Signal → Leg → Prop where
  | start (ht : s.tasks[i]? = some .claimed) : Hears p s addition i .start ⟨s, [], some .ensure⟩
  | resolved {a : Retry.Account} (ht : s.tasks[i]? = some (.resolving a))
      (result : Except FetchError LinkTable) :
      Hears p s addition i (.links result) (settleLinks p s addition i a result)
  | refreshed {a : Retry.Account} (ht : s.tasks[i]? = some (.refreshing a)) (links : LinkTable) :
      Hears p s addition i (.links (.ok links)) ⟨s, [], some (.applyRefreshed links a)⟩
  /-- A refresh that fails is a failure of the attempt that it is for. -/
  | unrefreshed {a : Retry.Account} (ht : s.tasks[i]? = some (.refreshing a)) (e : FetchError) :
      Hears p s addition i (.links (.error e)) (settleAttempt p s addition i a (.error e))
  | payload {a : Retry.Account} (ht : s.tasks[i]? = some (.downloading a))
      (result : Except FetchError Download) :
      Hears p s addition i (.payload result) (settleAttempt p s addition i a result)
  | asksAgain {a : Retry.Account} {request : LinkRequest}
      (ht : s.tasks[i]? = some (.resolvePause a)) (hr : s.linkRequest i = .ok request) :
      Hears p s addition i .waitOver ⟨s, [], some (.ask request a)⟩
  | asksNothing {a : Retry.Account} {e : FetchError} (ht : s.tasks[i]? = some (.resolvePause a))
      (hr : s.linkRequest i = .error e) : Hears p s addition i .waitOver (s.giveUp e a.attempts)
  | triesAgain {a : Retry.Account} (ht : s.tasks[i]? = some (.downloadPause a)) :
      Hears p s addition i .waitOver ⟨s, [], some (.attempt a)⟩

/-- **What hearing an answer can come to.** -/
theorem hear_hears {p : Setup} {s : State} {addition : Duration} {i : Nat} {signal : Signal}
    {l : Leg} (h : s.hear p addition i signal = some l) : Hears p s addition i signal l := by
  unfold hear at h
  cases signal with
  | start =>
      dsimp only at h
      split at h
      · rename_i ht
        obtain rfl := Option.some.inj h
        exact .start ht
      · cases h
  | links result =>
      dsimp only at h
      split at h
      · rename_i a ht
        obtain rfl := Option.some.inj h
        exact .resolved ht result
      · rename_i a ht
        cases result with
        | ok links =>
            obtain rfl := Option.some.inj h
            exact .refreshed ht links
        | error e =>
            obtain rfl := Option.some.inj h
            exact .unrefreshed ht e
      · cases h
  | payload result =>
      dsimp only at h
      split at h
      · rename_i a ht
        obtain rfl := Option.some.inj h
        exact .payload ht result
      · cases h
  | waitOver =>
      dsimp only at h
      split at h
      · rename_i a ht
        cases hr : s.linkRequest i with
        | ok request =>
            rw [hr] at h
            obtain rfl := Option.some.inj h
            exact .asksAgain ht hr
        | error e =>
            rw [hr] at h
            obtain rfl := Option.some.inj h
            exact .asksNothing ht hr
      · rename_i a ht
        obtain rfl := Option.some.inj h
        exact .triesAgain ht
      · cases h

/-- What the leg at a point does, one case for each way it can go. The cases name what the leg found
and leave out the texts of the log. -/
inductive Runs (p : Setup) (s : State) (now : Moment) (addition : Duration) (i : Nat) :
    Point → Leg → Prop where
  /-- The task ends with an error. -/
  | givesUp {pt : Point} (hpt : 0 < pt.rank) (e : FetchError) (n : Nat) (log : List Log.Entry) :
      Runs p s now addition i pt ((s.giveUp e n).after (notes log))
  /-- An attempt fails before the download. -/
  | fails {pt : Point} (hpt : 0 < pt.rank) (a : Retry.Account) (e : FetchError)
      (log : List Log.Entry) :
      Runs p s now addition i pt ((settleAttempt p s addition i a (.error e)).after (notes log))
  /-- There is no number left for another attempt. -/
  | overruns {pt : Point} (hpt : 0 < pt.rank) (hopen : ¬ s.closed) :
      Runs p s now addition i pt ⟨s.setPhase i .lost, [], none⟩
  | linked {d : Descriptor} {store : Store} (hopen : ¬ s.closed) (hd : s.store.get i = .ok d)
      (hl : (d.freshLink now.wall p.config.expiryBuffer).isSome)
      (hm : s.store.move i .linkResolved = .ok store) (log : List Log.Entry) :
      Runs p s now addition i .ensure ⟨{ s with store }, notes log, some .begin⟩
  | unlinked {d : Descriptor} (hopen : ¬ s.closed) (hd : s.store.get i = .ok d)
      (hl : ¬ (d.freshLink now.wall p.config.expiryBuffer).isSome) (log : List Log.Entry) :
      Runs p s now addition i .ensure ⟨s, notes log, some (.ask ⟨i, d.rowOffset⟩ {})⟩
  | asks (hopen : ¬ s.closed) (request : LinkRequest) (a : Retry.Account) :
      Runs p s now addition i (.ask request a)
        ⟨s.setPhase i (.resolving a.begin), [.askLinks i request], none⟩
  | applied {s' : State} {links : LinkTable} {effects : List Effect} {attempts : Nat}
      (ha : s.applyLinks i links = (s', effects, .ok ())) (event : ChunkEvent) :
      Runs p s now addition i (.apply links attempts)
        ⟨s', .report event :: effects, some (.mark attempts)⟩
  | unapplied {s' : State} {links : LinkTable} {effects : List Effect} {attempts : Nat}
      {e : FetchError} (ha : s.applyLinks i links = (s', effects, .error e))
      (event : ChunkEvent) :
      Runs p s now addition i (.apply links attempts)
        ((s'.giveUp e attempts).after (.report event :: effects))
  | marked {store : Store} {attempts : Nat} (hm : s.store.move i .linkResolved = .ok store)
      (log : List Log.Entry) :
      Runs p s now addition i (.mark attempts) ⟨{ s with store }, notes log, some .begin⟩
  | begins {store : Store} (hopen : ¬ s.closed) (hm : s.store.move i .downloading = .ok store)
      (log : List Log.Entry) :
      Runs p s now addition i .begin ⟨{ s with store }, notes log, some (.attempt {})⟩
  | downloads {a : Retry.Account} {d : Descriptor} {link : Link} (hopen : ¬ s.closed)
      (hd : s.store.get i = .ok d) (hl : d.freshLink now.wall p.config.expiryBuffer = some link) :
      Runs p s now addition i (.attempt a)
        ⟨s.setPhase i (.downloading a.begin), [.download i link], none⟩
  | expired {a : Retry.Account} {d : Descriptor} (hopen : ¬ s.closed)
      (hd : s.store.get i = .ok d) (hl : d.freshLink now.wall p.config.expiryBuffer = none) :
      Runs p s now addition i (.attempt a) ⟨s, [], some (.refresh a.begin)⟩
  | refreshes {a : Retry.Account} {request : LinkRequest} {store : Store}
      (hr : s.linkRequest i = .ok request) (hm : s.store.move i .linkResolved = .ok store)
      (log : List Log.Entry) (entry : Log.Entry) :
      Runs p s now addition i (.refresh a) ⟨{ s with store }.setPhase i (.refreshing a),
        notes log ++ [.note entry, .askLinks i request], none⟩
  | renews {s' : State} {links : LinkTable} {effects : List Effect} {a : Retry.Account}
      (ha : s.applyLinks i links = (s', effects, .ok ())) :
      Runs p s now addition i (.applyRefreshed links a) ⟨s', effects, some (.resume a)⟩
  | unrenewed {s' : State} {links : LinkTable} {effects : List Effect} {a : Retry.Account}
      {e : FetchError} (ha : s.applyLinks i links = (s', effects, .error e)) :
      Runs p s now addition i (.applyRefreshed links a)
        ((settleAttempt p s' addition i a (.error e)).after effects)
  | resumes {store : Store} {a : Retry.Account} {d : Descriptor} {link : Link}
      (hm : s.store.move i .downloading = .ok store) (hd : store.get i = .ok d)
      (hl : d.link = some link) (log : List Log.Entry) :
      Runs p s now addition i (.resume a) ⟨{ s with store }.setPhase i (.downloading a),
        notes log ++ [.download i link], none⟩
  | loses {store : Store} {a : Retry.Account} (hm : s.store.move i .downloading = .ok store)
      (e : FetchError) (log : List Log.Entry) :
      Runs p s now addition i (.resume a)
        ((settleAttempt p { s with store } addition i a (.error e)).after (notes log))
  | finishes (r : TaskResult) : Runs p s now addition i (.finish r) (.last (s.complete now i r))

/-- **What a leg can do.** -/
theorem leg_runs (p : Setup) (s : State) (now : Moment) (addition : Duration) (i : Nat)
    (pt : Point) : Runs p s now addition i pt (s.leg p now addition i pt) := by
  cases pt with
  | ensure =>
      rw [leg, ensureLeg]
      split
      · exact .givesUp (by decide) .closed 0 []
      · rename_i hopen
        split
        · rename_i e _
          exact .givesUp (by decide) e 0 []
        · rename_i d hd
          split
          · rename_i hl
            split
            · rename_i e _
              exact .givesUp (by decide) e 0 []
            · rename_i store hm
              exact .linked hopen hd hl hm _
          · rename_i hl
            exact .unlinked hopen hd hl [_]
  | ask request a =>
      rw [leg, askLeg]
      split
      · exact .givesUp (by simp [Point.rank]) _ a.attempts []
      · rename_i hopen
        split
        · exact .overruns (by simp [Point.rank]) hopen
        · exact .asks hopen request a
  | apply links attempts =>
      rw [leg, applyLeg]
      split
      · rename_i ha
        exact .unapplied ha _
      · rename_i ha
        exact .applied ha _
  | mark attempts =>
      rw [leg, markLeg]
      split
      · rename_i e _
        exact .givesUp (by simp [Point.rank]) e attempts _
      · rename_i store hm
        exact .marked hm _
  | begin =>
      rw [leg, beginLeg]
      split
      · exact .givesUp (by decide) .closed 0 []
      · rename_i hopen
        split
        · rename_i e _
          exact .givesUp (by decide) e 0 []
        · rename_i store hm
          exact .begins hopen hm _
  | attempt a =>
      rw [leg, attemptLeg]
      split
      · exact .givesUp (by simp [Point.rank]) .cancelled a.attempts []
      · rename_i hopen
        split
        · exact .overruns (by simp [Point.rank]) hopen
        · dsimp only
          split
          · rename_i e _
            exact .fails (by simp [Point.rank]) a.begin e []
          · rename_i d hd
            split
            · rename_i link hl
              exact .downloads hopen hd hl
            · rename_i hl
              exact .expired hopen hd hl
  | refresh a =>
      rw [leg, refreshLeg]
      split
      · rename_i request store hr hm
        exact .refreshes hr hm _ _
      · rename_i e _
        exact .fails (by simp [Point.rank]) a e []
      · rename_i e _ _
        exact .fails (by simp [Point.rank]) a e []
  | applyRefreshed links a =>
      rw [leg, applyRefreshedLeg]
      split
      · rename_i ha
        exact .unrenewed ha
      · rename_i ha
        exact .renews ha
  | resume a =>
      rw [leg, resumeLeg]
      dsimp only
      split
      · rename_i e _
        exact .fails (by simp [Point.rank]) a e _
      · rename_i store hm
        split
        · rename_i link hlink
          cases hd : store.get i with
          | error e => simp [hd, Except.map] at hlink
          | ok d =>
              refine .resumes hm hd ?_ _
              simpa [hd, Except.map] using hlink
        · exact .loses hm _ _
        · exact .loses hm _ _
  | finish r => exact .finishes r

/-! ## Every leg is nearer to the end of its stretch -/

theorem settleAttempt_rank {p : Setup} {s : State} {addition : Duration} {i : Nat}
    {a : Retry.Account} {result : Except FetchError Download} {q : Point}
    (h : (settleAttempt p s addition i a result).next = some q) : q.rank = 0 := by
  unfold settleAttempt at h
  dsimp only at h
  split at h
  · simp at h
  · obtain rfl := Option.some.inj h; rfl
  · simp at h

/-- **Each leg leads to one of lower rank, so a stretch ends.** -/
theorem leg_rank {p : Setup} {s : State} {now : Moment} {addition : Duration} {i : Nat}
    {pt q : Point} (h : (s.leg p now addition i pt).next = some q) : q.rank < pt.rank := by
  have hruns := leg_runs p s now addition i pt
  generalize s.leg p now addition i pt = l at h hruns
  cases hruns with
  | givesUp hpt e n log =>
      obtain rfl := Option.some.inj h
      exact hpt
  | fails hpt a e log =>
      rw [Leg.next_after] at h
      rw [settleAttempt_rank h]
      exact hpt
  | unrenewed ha =>
      rw [Leg.next_after] at h
      rw [settleAttempt_rank h]
      simp [Point.rank]
  | loses hm e log =>
      rw [Leg.next_after] at h
      rw [settleAttempt_rank h]
      simp [Point.rank]
  | linked | unlinked | applied | unapplied | marked | begins | expired | renews =>
      obtain rfl := Option.some.inj h
      simp [Point.rank]
  | overruns | asks | downloads | refreshes | resumes | finishes => cases h

/-! ## A stretch is its legs in a row -/

/-- Run the legs from a point on, with nothing in between. -/
def proceed (p : Setup) (s : State) (now : Moment) (addition : Duration) (i : Nat) (pt : Point) :
    Move :=
  match _h : (s.leg p now addition i pt).next with
  | none => ⟨(s.leg p now addition i pt).state, (s.leg p now addition i pt).effects⟩
  | some q => (proceed p (s.leg p now addition i pt).state now addition i q).after
      (s.leg p now addition i pt).effects
  termination_by pt.rank
  decreasing_by exact leg_rank _h

/-- Finish the stretch that a leg belongs to. -/
def finishFrom (p : Setup) (now : Moment) (addition : Duration) (i : Nat) (l : Leg) : Move :=
  match l.next with
  | none => ⟨l.state, l.effects⟩
  | some q => (proceed p l.state now addition i q).after l.effects

theorem proceed_eq (p : Setup) (s : State) (now : Moment) (addition : Duration) (i : Nat)
    (pt : Point) : s.proceed p now addition i pt =
      finishFrom p now addition i (s.leg p now addition i pt) := by
  rw [proceed, finishFrom]
  split <;> simp_all

theorem finishFrom_after (p : Setup) (now : Moment) (addition : Duration) (i : Nat)
    (effects : List Effect) (l : Leg) : finishFrom p now addition i (l.after effects) =
      (finishFrom p now addition i l).after effects := by
  unfold finishFrom Leg.after
  cases l.next <;> simp [Move.after]

/-- A leg with another after it. -/
theorem finishFrom_some (p : Setup) (now : Moment) (addition : Duration) (i : Nat) (s : State)
    (effects : List Effect) (q : Point) : finishFrom p now addition i ⟨s, effects, some q⟩ =
      (s.proceed p now addition i q).after effects := rfl

theorem proceed_finish (p : Setup) (s : State) (now : Moment) (addition : Duration) (i : Nat)
    (r : TaskResult) : s.proceed p now addition i (.finish r) = s.complete now i r := by
  rw [proceed_eq]; rfl

theorem finishFrom_giveUp (p : Setup) (now : Moment) (addition : Duration) (i : Nat) (s : State)
    (e : FetchError) (n : Nat) :
    finishFrom p now addition i (s.giveUp e n) = s.completeWith now i e n := by
  rw [giveUp, finishFrom_some, proceed_finish]; rfl

theorem finishFrom_settleAttempt (p : Setup) (s : State) (now : Moment) (addition : Duration)
    (i : Nat) (a : Retry.Account) (result : Except FetchError Download) :
    finishFrom p now addition i (settleAttempt p s addition i a result) =
      settleDownload p s now addition i a result := by
  unfold settleAttempt settleDownload
  rcases Retry.settle p.config.retry .get addition a result with _ | ⟨o⟩ | ⟨cls, delay, b⟩
  · rfl
  · dsimp only
    rw [finishFrom_some, proceed_finish]
  · rfl

theorem proceed_refresh (p : Setup) (s : State) (now : Moment) (addition : Duration) (i : Nat)
    (a : Retry.Account) :
    s.proceed p now addition i (.refresh a) = refresh p s now addition i a := by
  rw [proceed_eq, leg, refreshLeg, refresh]
  cases s.linkRequest i with
  | error e => exact finishFrom_settleAttempt ..
  | ok request =>
      cases s.store.move i .linkResolved with
      | error e => exact finishFrom_settleAttempt ..
      | ok store => rfl

theorem proceed_attempt (p : Setup) (s : State) (now : Moment) (addition : Duration) (i : Nat)
    (a : Retry.Account) :
    s.proceed p now addition i (.attempt a) = attempt p s now addition i a := by
  rw [proceed_eq, leg, attemptLeg, attempt]
  by_cases hc : s.closed
  · rw [if_pos hc, if_pos hc, finishFrom_giveUp]
  · rw [if_neg hc, if_neg hc]
    by_cases hfull : a.full
    · rw [if_pos hfull, if_pos hfull]
      rfl
    · rw [if_neg hfull, if_neg hfull]
      cases s.store.get i with
      | error e => exact finishFrom_settleAttempt ..
      | ok d =>
          dsimp only
          cases d.freshLink now.wall p.config.expiryBuffer with
          | some link => rfl
          | none => dsimp only; rw [finishFrom_some, proceed_refresh]; rfl

theorem proceed_begin (p : Setup) (s : State) (now : Moment) (addition : Duration) (i : Nat) :
    s.proceed p now addition i .begin = beginDownload p s now addition i := by
  rw [proceed_eq, leg, beginLeg, beginDownload]
  by_cases hc : s.closed
  · rw [if_pos hc, if_pos hc, finishFrom_giveUp]
  · rw [if_neg hc, if_neg hc]
    cases s.store.move i .downloading with
    | error e => exact finishFrom_giveUp ..
    | ok store => dsimp only; rw [finishFrom_some, proceed_attempt]

theorem proceed_resume (p : Setup) (s : State) (now : Moment) (addition : Duration) (i : Nat)
    (a : Retry.Account) : s.proceed p now addition i (.resume a) =
      let effects := notes (s.store.moveLogOf i .downloading)
      match s.store.move i .downloading with
      | .error e => (settleDownload p s now addition i a (.error e)).after effects
      | .ok store =>
        let s := { s with store }
        match (s.store.get i).map Descriptor.link with
        | .ok (some link) => ⟨s.setPhase i (.downloading a), effects ++ [.download i link]⟩
        | .ok none =>
          (settleDownload p s now addition i a (.error (.invalidState (.lostLink i)))).after effects
        | .error e => (settleDownload p s now addition i a (.error e)).after effects := by
  rw [proceed_eq, leg, resumeLeg]
  dsimp only
  cases s.store.move i .downloading with
  | error e => dsimp only; rw [finishFrom_after, finishFrom_settleAttempt]
  | ok store =>
      dsimp only
      rcases (store.get i).map Descriptor.link with e | _ | link
      · dsimp only; rw [finishFrom_after, finishFrom_settleAttempt]
      · dsimp only; rw [finishFrom_after, finishFrom_settleAttempt]
      · rfl

theorem proceed_applyRefreshed (p : Setup) (s : State) (now : Moment) (addition : Duration)
    (i : Nat) (links : LinkTable) (a : Retry.Account) :
    s.proceed p now addition i (.applyRefreshed links a) =
      linkRefreshed p s now addition i a links := by
  rw [proceed_eq, leg, applyRefreshedLeg, linkRefreshed]
  rcases s.applyLinks i links with ⟨s', effects, e | _⟩
  · dsimp only
    rw [finishFrom_after, finishFrom_settleAttempt]
  · dsimp only
    rw [finishFrom_some, proceed_resume]
    dsimp only
    cases s'.store.move i .downloading with
    | error e => simp [Move.after]
    | ok store =>
        dsimp only
        rcases (store.get i).map Descriptor.link with e | _ | link <;> simp [Move.after]

theorem proceed_mark (p : Setup) (s : State) (now : Moment) (addition : Duration) (i : Nat)
    (attempts : Nat) : s.proceed p now addition i (.mark attempts) =
      (match s.store.move i .linkResolved with
      | .error e => s.completeWith now i e attempts
      | .ok store => beginDownload p { s with store } now addition i).after
        (notes (s.store.moveLogOf i .linkResolved)) := by
  rw [proceed_eq, leg, markLeg]
  cases s.store.move i .linkResolved with
  | error e => dsimp only; rw [finishFrom_after, finishFrom_giveUp]
  | ok store => dsimp only; rw [finishFrom_some, proceed_begin]

theorem proceed_apply (p : Setup) (s : State) (now : Moment) (addition : Duration) (i : Nat)
    (links : LinkTable) (attempts : Nat) :
    s.proceed p now addition i (.apply links attempts) =
      linksResolved p s now addition i links attempts := by
  rw [proceed_eq, leg, applyLeg, linksResolved]
  rcases s.applyLinks i links with ⟨s', effects, e | _⟩
  · dsimp only
    rw [finishFrom_after, finishFrom_giveUp]
  · dsimp only
    rw [finishFrom_some, proceed_mark]
    cases s'.store.move i .linkResolved <;> simp [Move.after]

theorem proceed_ask (p : Setup) (s : State) (now : Moment) (addition : Duration) (i : Nat)
    (request : LinkRequest) (a : Retry.Account) :
    s.proceed p now addition i (.ask request a) = s.askLinks now i request a := by
  rw [proceed_eq, leg, askLeg, askLinks]
  split
  · exact finishFrom_giveUp ..
  · split
    · rfl
    · rfl

theorem proceed_ensure (p : Setup) (s : State) (now : Moment) (addition : Duration) (i : Nat)
    (h : s.tasks[i]? = some .claimed) :
    s.proceed p now addition i .ensure = start p s now addition i := by
  rw [proceed_eq, leg, ensureLeg, start, if_neg (not_not_intro h)]
  by_cases hc : s.closed
  · rw [if_pos hc, if_pos hc, finishFrom_giveUp]
  · rw [if_neg hc, if_neg hc]
    cases s.store.get i with
    | error e => exact finishFrom_giveUp ..
    | ok d =>
        dsimp only
        split
        · cases s.store.move i .linkResolved with
          | error e => exact finishFrom_giveUp ..
          | ok store => dsimp only; rw [finishFrom_some, proceed_begin]
        · rw [finishFrom_some, proceed_ask]

theorem finishFrom_settleLinks (p : Setup) (s : State) (now : Moment) (addition : Duration)
    (i : Nat) (a : Retry.Account) (result : Except FetchError LinkTable) :
    finishFrom p now addition i (settleLinks p s addition i a result) =
      settleResolution p s now addition i a result := by
  unfold settleLinks settleResolution
  rcases Retry.settle p.config.retry p.resolverMethod addition a result with
    _ | ⟨o, _, _⟩ | ⟨cls, delay, b⟩
  · rfl
  · dsimp only
    cases o with
    | ok links => dsimp only; rw [finishFrom_some, proceed_apply]
    | error e => dsimp only; rw [finishFrom_after, finishFrom_giveUp]; rfl
  · rfl

/-- The step of a task that a signal causes. -/
def stretch (p : Setup) (s : State) (now : Moment) (addition : Duration) (i : Nat) :
    Signal → Move
  | .start => start p s now addition i
  | .links result => linksArrived p s now addition i result
  | .payload result => payloadArrived p s now addition i result
  | .waitOver => waitEnded p s now addition i

/-- **A stretch is what the task does on the signal, and then its legs in a row.** -/
theorem stretch_eq (p : Setup) (s : State) (now : Moment) (addition : Duration) (i : Nat)
    (signal : Signal) : s.stretch p now addition i signal =
      match s.hear p addition i signal with
      | none => ⟨s, []⟩
      | some l => finishFrom p now addition i l := by
  cases signal with
  | start =>
      rw [stretch, hear]
      by_cases h : s.tasks[i]? = some .claimed
      · rw [h]
        dsimp only
        rw [finishFrom_some, proceed_ensure p s now addition i h]
        rfl
      · rw [start, if_pos h]
        split <;> simp_all
  | links result =>
      rw [stretch, linksArrived, hear]
      -- links are heard while the task resolves or refreshes, and dropped in every other phase
      rcases s.tasks[i]? with _ | _ | a | _ | _ | a | _ | _ | _ <;> try rfl
      · exact (finishFrom_settleLinks ..).symm
      · cases result with
        | ok links => dsimp only; rw [finishFrom_some, proceed_applyRefreshed]; rfl
        | error e => exact (finishFrom_settleAttempt ..).symm
  | payload result =>
      rw [stretch, payloadArrived, hear]
      rcases s.tasks[i]? with _ | _ | _ | _ | a | _ | _ | _ | _ <;> try rfl
      exact (finishFrom_settleAttempt ..).symm
  | waitOver =>
      rw [stretch, waitEnded, hear]
      rcases s.tasks[i]? with _ | _ | _ | a | _ | _ | a | _ | _ <;> try rfl
      · dsimp only
        cases s.linkRequest i with
        | ok request => dsimp only; rw [finishFrom_some, proceed_ask]; rfl
        | error e => dsimp only; rw [finishFrom_giveUp]
      · dsimp only
        rw [finishFrom_some, proceed_attempt]; rfl

end State

end ResultChunks.Provider
