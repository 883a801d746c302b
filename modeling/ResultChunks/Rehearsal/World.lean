import ResultChunks.Provider.Consumer
import ResultChunks.Provider.Task
import ResultChunks.Rehearsal.Links

/-!
# A provider in a rehearsal

A world is a provider with scripted services and a clock of its own, which counts milliseconds and
moves only when nothing else can happen. Actions that are due stand in a queue. What a stretch asks
for is answered by a later action: one that is due at once goes to the front of the queue, so that
the same task goes on with it, and any other becomes a timer. The calendar stands still at `wall`.

The consumer and the jobs that stand for further consumers wait in one list, and a change wakes them
in the order in which they began to wait.
-/

namespace ResultChunks.Rehearsal

open Provider

/-- Something that is to happen. -/
inductive Action where
  | start (chunk : Nat)
  /-- An answer reaches the link resolver of a chunk's task. -/
  | call (chunk : Nat) (call : Call)
  /-- Links reach a chunk's task. -/
  | links (chunk : Nat) (result : Except FetchError LinkTable)
  | payload (chunk : Nat) (result : Except FetchError Download)
  | waitEnded (chunk : Nat)
  /-- A job goes on. -/
  | job (number : Nat)
  /-- A job that has waited since a time says so, if it still waits. -/
  | jobPatience (number since : Nat)

/-- Who waits for a chunk. -/
inductive Waiter where
  | consumer
  | job (number : Nat)
deriving DecidableEq, Repr, Inhabited

/-- Where a job stands. -/
inductive JobState where
  | ready
  /-- It waits for a chunk, since a time, and looked last at another. -/
  | waiting (index began looked : Nat)
deriving DecidableEq, Repr, Inhabited

/-- What an advance came to. -/
abbrev Advanced := Except FetchError (Option Handle)

/-- A further consumer, which advances a number of times. -/
structure Job where
  remaining : Nat
  state : JobState := .ready
  /-- What its advances came to, the last one first. -/
  results : List Advanced := []

/-- How payloads are downloaded: by a script, or else as usual. -/
structure DownloadService where
  script : Script Download
  usual : Link → Except FetchError Download

/-- A provider with all that is around it. -/
structure World where
  setup : Setup
  state : State
  wall : Timestamp
  linkService : LinkService
  downloads : DownloadService
  /-- Events go to the log, too. -/
  logsEvents : Bool := false
  now : Nat := 0
  queue : List Action := []
  /-- Actions that are due later, in the order of their times. -/
  timers : List (Nat × Action) := []
  waiters : List Waiter := []
  consumerWoken : Bool := false
  jobs : List Job := []
  /-- When each chunk's task ran first. -/
  began : List (Nat × Nat) := []
  trace : Trace := []
  /-- The log, its last entry first. -/
  log : List Log.Entry := []

namespace World

/-- Write to the log. -/
def note (w : World) (entries : List Log.Entry) : World :=
  { w with log := entries.reverse ++ w.log }

/-- Mention in the trace what happened. -/
def mention (w : World) (ms : List Mention) : World :=
  { w with trace := (ms.map fun m => (w.now, m)).reverse ++ w.trace }

/-- Put a timer behind those that are due no later. -/
def insertTimer (time : Nat) (action : Action) (timers : List (Nat × Action)) :
    List (Nat × Action) :=
  (timers.takeWhile fun t => t.1 ≤ time) ++ (time, action) :: timers.dropWhile fun t => t.1 ≤ time

/-- Let an action happen after a delay. -/
def later (w : World) (delay : Nat) (action : Action) : World :=
  if delay = 0 then { w with queue := action :: w.queue }
  else { w with timers := insertTimer (w.now + delay) action w.timers }

/-- The milliseconds of a delay, a fraction counted as a whole one. -/
def ceilMillis (d : Duration) : Nat := (d.nanos + Duration.perMilli - 1) / Duration.perMilli

/-- Take what a stretch of a link call led to. -/
def takeReply (w : World) (chunk : Nat) (r : Reply) : World :=
  let w := ({ w with linkService := r.service }.mention r.mentions).note r.log
  match r.turnout with
  | .answer result => w.later 0 (.links chunk result)
  | .pending delay call => w.later delay (.call chunk call)

/-- Wake a waiter. -/
def wake (w : World) : Waiter → World
  | .consumer => { w with consumerWoken := true }
  | .job number => { w with queue := w.queue ++ [.job number] }

/-- Do what a stretch asks of the world. -/
def perform (w : World) : Effect → World
  | .spawn chunk => { w with queue := w.queue ++ [.start chunk] }
  | .askLinks chunk request => w.takeReply chunk (w.linkService.begin w.wall [request])
  | .download chunk link =>
    let (cue, script) := w.downloads.script.take link.chunkIndex
    let result := cue.answer (w.downloads.usual link)
    ({ w with downloads := { w.downloads with script } }.mention
      [⟨chunkKey link.chunkIndex, .download link.url⟩]).later cue.delay (.payload chunk result)
  | .sleep chunk delay => w.later (ceilMillis delay) (.waitEnded chunk)
  | .report event =>
    let w := w.mention [⟨eventKey event, .reported event⟩]
    if w.logsEvents then w.note [event.entry] else w
  | .wake => w.waiters.foldl wake { w with waiters := [] }
  | .note entry => w.note [entry]

/-- Do all that a stretch asks of the world, in order. -/
def performAll (w : World) (effects : List Effect) : World := effects.foldl perform w

/-- Take the state that a stretch led to and do what it asks. -/
def takeMove (w : World) (m : Move) : World := { w with state := m.state }.performAll m.effects

/-- The moment of a stretch of a chunk's task. -/
def moment (w : World) (chunk : Nat) : Moment :=
  ⟨w.wall, .ofMillis (w.now - (w.began.lookup chunk).getD w.now)⟩

/-- The time since another, as a duration. -/
def since (w : World) (time : Nat) : Duration := .ofMillis (w.now - time)

/-! ## Jobs -/

/-- Change a job. -/
def setJob (w : World) (number : Nat) (j : Job) : World := { w with jobs := w.jobs.set number j }

/-- Take what a job's advance or look came to. -/
def takeJobProgress (w : World) (number began : Nat) (j : Job) : Progress → World
  | .done result =>
    let j :=
      { j with remaining := j.remaining - 1, state := .ready, results := result :: j.results }
    let w := w.setJob number j
    if j.remaining = 0 then w else { w with queue := .job number :: w.queue }
  | .waiting index =>
    let w := w.setJob number { j with state := .waiting index began w.now }
    { w with
      waiters := w.waiters ++ [.job number]
      timers := insertTimer (w.now + ceilMillis w.setup.config.readyTimeout)
        (.jobPatience number w.now) w.timers }

/-- Let a job go on: it advances, or it looks again for the chunk that it waits for. -/
def runJob (w : World) (number : Nat) : World :=
  match w.jobs[number]? with
  | none => w
  | some j =>
    if j.remaining = 0 then w
    else
      match j.state with
      | .ready =>
        let (s, effects, progress) := w.state.advance w.setup
        ({ w with state := s }.performAll effects).takeJobProgress number w.now j progress
      | .waiting index began _ =>
        let (s, effects, progress) := w.state.look (w.since began) index
        ({ w with state := s }.performAll effects).takeJobProgress number began j progress

/-- Let a job say that it still waits, and look again. -/
def runJobPatience (w : World) (number since : Nat) : World :=
  match (w.jobs[number]?).map Job.state with
  | some (.waiting index began looked) =>
    if looked ≠ since then w
    else
      let w := w.perform (State.stillWaiting index (w.since began))
      runJob { w with waiters := w.waiters.filter fun x => x ≠ .job number } number
  | _ => w

/-! ## Running -/

/-- Let an action happen. A closed provider's tasks were stopped and never go on. -/
def act (w : World) (a : Action) : World :=
  match a with
  | .job number => w.runJob number
  | .jobPatience number since => w.runJobPatience number since
  | .start chunk =>
    if w.state.closed then w
    else
      let w := { w with began := (chunk, w.now) :: w.began }
      w.takeMove (w.state.start w.setup (w.moment chunk) .zero chunk)
  | .call chunk call =>
    if w.state.closed then w else w.takeReply chunk (w.linkService.resume w.wall call)
  | .links chunk result =>
    if w.state.closed then w
    else w.takeMove (w.state.linksArrived w.setup (w.moment chunk) .zero chunk result)
  | .payload chunk result =>
    if w.state.closed then w
    else w.takeMove (w.state.payloadArrived w.setup (w.moment chunk) .zero chunk result)
  | .waitEnded chunk =>
    if w.state.closed then w
    else w.takeMove (w.state.waitEnded w.setup (w.moment chunk) .zero chunk)

/-- Let happen what can happen without time passing, at most `fuel` actions of it. -/
def settle : Nat → World → World
  | 0, w => w
  | fuel + 1, w =>
    match w.queue with
    | [] => w
    | a :: rest => settle fuel ({ w with queue := rest }.act a)

/-- Move the clock, and queue what is due. -/
def moveTo (w : World) (time : Nat) : World :=
  { w with
    now := time
    queue := w.queue ++ (w.timers.takeWhile fun t => t.1 ≤ time).map Prod.snd
    timers := w.timers.dropWhile fun t => t.1 ≤ time }

/-- The time of the next timer. -/
def nextTime (w : World) : Option Nat := w.timers.head?.map Prod.fst

/-- Let time pass up to a moment. What is due just then is queued and does not happen yet. -/
def passUntil (target : Nat) : Nat → World → World
  | 0, w => w
  | fuel + 1, w =>
    let w := w.settle (fuel + 1)
    match w.nextTime with
    | some t => if t < target then passUntil target fuel (w.moveTo t) else w.moveTo target
    | none => w.moveTo target

/-- What waiting for a chunk came to. -/
inductive Waited where
  | done (result : Advanced)
  /-- The time that the consumer had was over. -/
  | timeout

/-- Let the consumer look again for its chunk. If that is not there, it waits behind all others. -/
def lookAgain (w : World) (index began : Nat) : World × Option Advanced :=
  let (s, effects, progress) := w.state.look (w.since began) index
  let w := { w with state := s, consumerWoken := false }.performAll effects
  match progress with
  | .done result => (w, some result)
  | .waiting _ =>
    ({ w with waiters := (w.waiters.filter fun x => x ≠ .consumer) ++ [.consumer] }, none)

/-- Wait for a chunk, since `began` and since the last look at `looked`, until `limit` at most. -/
def await (index : Nat) (limit : Option Nat) (began : Nat) : Nat → Nat → World → World × Waited
  | 0, _, w => (w, .timeout)
  | fuel + 1, looked, w =>
    let w := w.settle (fuel + 1)
    if w.consumerWoken then
      match w.lookAgain index began with
      | (w, some result) => (w, .done result)
      | (w, none) => await index limit began fuel w.now w
    else
      let patience := looked + ceilMillis w.setup.config.readyTimeout
      let first := (w.nextTime.map fun t => min t patience).getD patience
      match limit with
      | some l =>
        if l ≤ first then
          let w := w.moveTo l
          ({ w with waiters := w.waiters.filter fun x => x ≠ .consumer }, .timeout)
        else pass fuel looked first patience w
      | none => pass fuel looked first patience w
where
  /-- Move the clock to the next event, and go on waiting. -/
  pass (fuel looked first patience : Nat) (w : World) : World × Waited :=
    let w := w.moveTo first
    if first = patience then
      match (w.perform (State.stillWaiting index (w.since began))).lookAgain index began with
      | (w, some result) => (w, .done result)
      | (w, none) => await index limit began fuel w.now w
    else await index limit began fuel looked w

/-- Bounds the actions of a rehearsal. -/
def patienceFuel : Nat := 1000000

/-- Advance the provider and wait for the chunk, for a number of milliseconds at most. -/
def advance (w : World) (timeout : Option Nat) : World × Waited :=
  let (s, effects, progress) := w.state.advance w.setup
  let w := { w with state := s }.performAll effects
  match progress with
  | .done result => (w, .done result)
  | .waiting index =>
    if timeout = some 0 then (w, .timeout)
    else
      await index (timeout.map (w.now + ·)) w.now patienceFuel w.now
        { w with waiters := w.waiters ++ [.consumer], consumerWoken := false }

/-- Let a number of milliseconds pass. -/
def sleep (w : World) (ms : Nat) : World := passUntil (w.now + ms) patienceFuel w

/-- Close the provider. -/
def close (w : World) : World := w.takeMove w.state.close

/-- Start a job that advances a number of times. -/
def startJob (w : World) (times : Nat) : World :=
  { w with jobs := w.jobs ++ [{ remaining := times }], queue := w.queue ++ [.job w.jobs.length] }

/-- Let time pass until no job is left that has not ended. -/
def joinJobs : Nat → World → World
  | 0, w => w
  | fuel + 1, w =>
    let w := w.settle (fuel + 1)
    if w.jobs.all fun j => j.remaining = 0 then w
    else
      match w.nextTime with
      | none => w
      | some t => joinJobs fuel (w.moveTo t)

/-- Wait for all jobs; the answer is what the advances of each came to. -/
def join (w : World) : World × List (List Advanced) :=
  let w := joinJobs patienceFuel w
  ({ w with jobs := [] }, w.jobs.map fun j => j.results.reverse)

/-- Let happen all that can happen without time passing. -/
def rest (w : World) : World := w.settle patienceFuel

/-- A world around a new provider. -/
def create (setup : Setup) (first : Move) (wall : Timestamp) (linkService : LinkService)
    (downloads : DownloadService) (logsEvents : Bool) : World :=
  ({ setup, state := first.state, wall, linkService, downloads, logsEvents } : World).performAll
    first.effects

end World

end ResultChunks.Rehearsal
