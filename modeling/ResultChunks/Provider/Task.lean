import ResultChunks.Provider.State

/-!
# Chunk tasks

A task makes sure that its chunk has a fresh link, asks for the payload, and settles the chunk. Both
requests are repeated under the retry policy, each with an account of its own. Before each attempt
at the payload the link is looked at again, and one that expired meanwhile is replaced; the download
uses the link that is stored then.

A task is driven by four steps: `start`, `linksArrived`, `payloadArrived` and `waitEnded`. Each runs
up to the task's next wait. A step for a task that does not wait for it changes nothing. After a
close, a task may still run the stretch it is in; `complete` then drops what it brings.
-/

namespace ResultChunks.Provider

/-- When a stretch runs: the calendar time, and the time since its task began. -/
structure Moment where
  wall : Timestamp
  elapsed : Duration
deriving DecidableEq, Repr, Inhabited

/-- What a task came to, and the attempts of the operation that ended it. -/
structure TaskResult where
  result : Except FetchError Download
  attempts : Nat
deriving Inhabited

namespace State

/-! ## The end of a task -/

/-- Record the failure of a chunk and claim no more. -/
def failChunk (s : State) (now : Moment) (i : Nat) (error : FetchError) (attempts : Nat) : Move :=
  let failed := note .error s!"Chunk {i} failed after {attempts} attempts: {error.message}"
  let event := Effect.report (.failed i (retriesOf attempts) now.elapsed error)
  let counted := s.store.change i fun d => d.countAttempts attempts
  let (store, entries) := match counted.setFailed i error with
    | .ok store => (store, notes (counted.moveLogOf i .failed))
    | .error e => (counted, [note .warn s!"Could not mark chunk {i} failed: {e.message}"])
  { state := { s with store, halted := true, held := s.held - 1 }
    effects := failed :: entries ++ [event] }

/-- Store a downloaded chunk. -/
def storeChunk (s : State) (now : Moment) (i : Nat) (d : Download) (attempts : Nat) : Move :=
  let counted := s.store.change i fun c => c.countAttempts attempts
  match counted.setBatches i d.batches with
  | .ok store =>
    { state := { s with store }
      effects := notes (counted.moveLogOf i .downloaded) ++
        [.report (.downloaded i d.byteCount d.rowCount attempts now.elapsed)] }
  | .error e =>
    (failChunk { s with store := counted } now i e attempts).after
      [note .error s!"Could not store chunk {i}: {e.message}"]

/-- The error of a chunk whose task failed: failures to resolve links and to run at all stand for
themselves, all others are failures to download. -/
def taskError (i : Nat) (attempts : Nat) : FetchError → FetchError
  | .linkResolution chunks source => .linkResolution chunks source
  | .closed => .closed
  | error => .chunkDownload i (retriesOf attempts) error

/-- End the task of a chunk and settle the chunk, unless the provider is closed. -/
def complete (s : State) (now : Moment) (i : Nat) (r : TaskResult) : Move :=
  let s := { s.setPhase i .ended with inFlight := s.inFlight.erase i }
  if s.closed then ⟨s, [note .debug s!"Discarding result of chunk {i} after close"]⟩
  else
    let m := match r.result with
      | .ok d => storeChunk s now i d r.attempts
      | .error e => failChunk s now i (taskError i r.attempts e) r.attempts
    m.andThen fun s => ⟨s, [.wake]⟩

/-- End a task with an error. -/
def completeWith (s : State) (now : Moment) (i : Nat) (error : FetchError) (attempts : Nat) :
    Move :=
  s.complete now i ⟨.error error, attempts⟩

/-! ## Links -/

/-- Store a link for the chunk it names. Links that no chunk can use are passed over. -/
def applyLink (store : Store) (l : Link) : Store × Log.Entry :=
  match store.setLink l with
  | .ok (true, store) => (store, ⟨.trace, .provider, s!"Applied link for chunk {l.chunkIndex}"⟩)
  | .ok (false, store) =>
    (store, ⟨.trace, .provider, s!"Chunk {l.chunkIndex} no longer needs a link"⟩)
  | .error e =>
    (store, ⟨.debug, .provider, s!"Ignoring link for chunk {l.chunkIndex}: {e.message}"⟩)

/-- Store the links of an answer, those for other chunks included. -/
def applyAll (store : Store) : List Link → Store × List Log.Entry
  | [] => (store, [])
  | l :: ls =>
    let (store, entry) := applyLink store l
    let (store, entries) := applyAll store ls
    (store, entry :: entries)

/-- Store the links of an answer for the sake of a chunk, which must have a link then. -/
def applyLinks (s : State) (i : Nat) (links : LinkTable) :
    State × List Effect × Except FetchError Unit :=
  if s.closed then (s, [], .error .closed)
  else
    let (store, entries) := applyAll s.store (links.map Prod.snd)
    let s := { s with store }
    let checked := match s.store.get i with
      | .error e => .error e
      | .ok d =>
        if d.link.isSome then .ok () else .error (.invalidManifest (.noLinkResolved i))
    (s, notes entries, checked)

/-- The request for the link of a chunk. -/
def linkRequest (s : State) (i : Nat) : Except FetchError LinkRequest := do
  let d ← s.store.get i
  .ok ⟨i, d.rowOffset⟩

/-! ## Downloading -/

/-- Settle an attempt at the payload. -/
def settleDownload (p : Setup) (s : State) (now : Moment) (addition : Duration) (i : Nat)
    (a : Retry.Account) (result : Except FetchError Download) : Move :=
  let turn := Retry.settle p.config.retry .get addition a result
  let log := notes (Retry.resultLog p.config.retry .get a result turn)
  match turn with
  | none => ⟨s.setPhase i .lost, log⟩
  | some (.finished o) => (s.complete now i ⟨o.result, o.attempts⟩).after log
  | some (.pause cls delay b) =>
    ⟨s.setPhase i (.downloadPause b),
      log ++ [.report (.retry i cls a.attempts delay), .sleep i delay]⟩

/-- Ask for a new link in the middle of an attempt. -/
def refresh (p : Setup) (s : State) (now : Moment) (addition : Duration) (i : Nat)
    (a : Retry.Account) : Move :=
  match s.linkRequest i, s.store.move i .linkResolved with
  | .ok request, .ok store =>
    ⟨{ s with store }.setPhase i (.refreshing a),
      notes (s.store.moveLogOf i .linkResolved) ++
        [note .debug s!"Link for chunk {i} expired during download, refreshing",
         .askLinks i request]⟩
  | .error e, _ => settleDownload p s now addition i a (.error e)
  | _, .error e => settleDownload p s now addition i a (.error e)

/-- Begin an attempt at the payload. -/
def attempt (p : Setup) (s : State) (now : Moment) (addition : Duration) (i : Nat)
    (a : Retry.Account) : Move :=
  if s.closed then s.completeWith now i .cancelled a.attempts
  else if a.full then ⟨s.setPhase i .lost, []⟩
  else
    let a := a.begin
    match s.store.get i with
    | .error e => settleDownload p s now addition i a (.error e)
    | .ok d =>
      match d.freshLink now.wall p.config.expiryBuffer with
      | some link => ⟨s.setPhase i (.downloading a), [.download i link]⟩
      | none => refresh p s now addition i a

/-- Begin to download a chunk that has its link. -/
def beginDownload (p : Setup) (s : State) (now : Moment) (addition : Duration) (i : Nat) : Move :=
  if s.closed then s.completeWith now i .closed 0
  else
    match s.store.move i .downloading with
    | .error e => s.completeWith now i e 0
    | .ok store =>
      (attempt p { s with store } now addition i {}).after
        (notes (s.store.moveLogOf i .downloading))

/-- Take a link that was asked for in the middle of an attempt, and download with it. -/
def linkRefreshed (p : Setup) (s : State) (now : Moment) (addition : Duration) (i : Nat)
    (a : Retry.Account) (links : LinkTable) : Move :=
  match s.applyLinks i links with
  | (s, effects, .error e) => (settleDownload p s now addition i a (.error e)).after effects
  | (s, effects, .ok ()) =>
    let effects := effects ++ notes (s.store.moveLogOf i .downloading)
    match s.store.move i .downloading with
    | .error e => (settleDownload p s now addition i a (.error e)).after effects
    | .ok store =>
      let s := { s with store }
      match (s.store.get i).map Descriptor.link with
      | .ok (some link) => ⟨s.setPhase i (.downloading a), effects ++ [.download i link]⟩
      | .ok none =>
        (settleDownload p s now addition i a (.error (.invalidState (.lostLink i)))).after effects
      | .error e => (settleDownload p s now addition i a (.error e)).after effects

/-! ## Resolving -/

/-- End a task whose links could not be had. -/
def failResolution (s : State) (now : Moment) (i : Nat) (error : FetchError) (attempts : Nat) :
    Move :=
  s.completeWith now i (.linkResolution [i] error) attempts

/-- Ask for the link of a chunk. -/
def askLinks (s : State) (now : Moment) (i : Nat) (request : LinkRequest) (a : Retry.Account) :
    Move :=
  if s.closed then s.failResolution now i .cancelled a.attempts
  else if a.full then ⟨s.setPhase i .lost, []⟩
  else ⟨s.setPhase i (.resolving a.begin), [.askLinks i request]⟩

/-- Go on with the links that were asked for first. -/
def linksResolved (p : Setup) (s : State) (now : Moment) (addition : Duration) (i : Nat)
    (links : LinkTable) (attempts : Nat) : Move :=
  let event := Effect.report (.linksResolved [i] links.length attempts now.elapsed)
  match s.applyLinks i links with
  | (s, effects, .error e) => (s.completeWith now i e attempts).after (event :: effects)
  | (s, effects, .ok ()) =>
    let effects := event :: effects ++ notes (s.store.moveLogOf i .linkResolved)
    match s.store.move i .linkResolved with
    | .error e => (s.completeWith now i e attempts).after effects
    | .ok store => (beginDownload p { s with store } now addition i).after effects

/-- Settle an attempt at resolving links. -/
def settleResolution (p : Setup) (s : State) (now : Moment) (addition : Duration) (i : Nat)
    (a : Retry.Account) (result : Except FetchError LinkTable) : Move :=
  let turn := Retry.settle p.config.retry p.resolverMethod addition a result
  let log := notes (Retry.resultLog p.config.retry p.resolverMethod a result turn)
  match turn with
  | none => ⟨s.setPhase i .lost, log⟩
  | some (.finished o) =>
    match o.result with
    | .ok links => (linksResolved p s now addition i links o.attempts).after log
    | .error e => (s.failResolution now i e o.attempts).after log
  | some (.pause cls delay b) =>
    ⟨s.setPhase i (.resolvePause b),
      log ++ [.report (.retry i cls a.attempts delay), .sleep i delay]⟩

/-! ## The steps of a task -/

/-- Run the first stretch of a claimed chunk's task. -/
def start (p : Setup) (s : State) (now : Moment) (addition : Duration) (i : Nat) : Move :=
  if s.tasks[i]? ≠ some .claimed then ⟨s, []⟩
  else if s.closed then s.completeWith now i .closed 0
  else
    match s.store.get i with
    | .error e => s.completeWith now i e 0
    | .ok d =>
      if (d.freshLink now.wall p.config.expiryBuffer).isSome then
        match s.store.move i .linkResolved with
        | .error e => s.completeWith now i e 0
        | .ok store =>
          (beginDownload p { s with store } now addition i).after
            (notes (s.store.moveLogOf i .linkResolved))
      else
        (s.askLinks now i ⟨i, d.rowOffset⟩ {}).after
          [note .debug s!"Chunk {i} has no usable link, resolving"]

/-- Take the answer to a question for links. -/
def linksArrived (p : Setup) (s : State) (now : Moment) (addition : Duration) (i : Nat)
    (result : Except FetchError LinkTable) : Move :=
  match s.tasks[i]? with
  | some (.resolving a) => settleResolution p s now addition i a result
  | some (.refreshing a) =>
    match result with
    | .ok links => linkRefreshed p s now addition i a links
    | .error e => settleDownload p s now addition i a (.error e)
  | _ => ⟨s, []⟩

/-- Take the answer to a download. -/
def payloadArrived (p : Setup) (s : State) (now : Moment) (addition : Duration) (i : Nat)
    (result : Except FetchError Download) : Move :=
  match s.tasks[i]? with
  | some (.downloading a) => settleDownload p s now addition i a result
  | _ => ⟨s, []⟩

/-- Go on after a wait. -/
def waitEnded (p : Setup) (s : State) (now : Moment) (addition : Duration) (i : Nat) : Move :=
  match s.tasks[i]? with
  | some (.resolvePause a) =>
    match s.linkRequest i with
    | .ok request => s.askLinks now i request a
    | .error e => s.completeWith now i e a.attempts
  | some (.downloadPause a) => attempt p s now addition i a
  | _ => ⟨s, []⟩

end State

end ResultChunks.Provider
