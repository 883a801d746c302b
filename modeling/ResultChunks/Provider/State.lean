import ResultChunks.Chunk.Store
import ResultChunks.Options.Config
import ResultChunks.Resolver.Request
import ResultChunks.Retry.Run
import ResultChunks.Telemetry

/-!
# The state of a chunk provider

A provider hands the chunks of a result to a consumer, in order, while tasks fetch the next ones. It
is a transition system. Between two waits a task, the consumer or a caller of `close` runs one
stretch, and a stretch is one atomic step on the state. What a stretch asks of the world around it,
it returns as effects: links to ask for, a download to start, a wait to begin. The world answers
with later steps. Nothing here knows a clock or a network, so every order of answers is possible.

A chunk counts against the memory bound from the moment it is claimed until the consumer moves past
it or it fails, and no chunk is claimed beyond the bound.
-/

namespace ResultChunks.Provider

/-- What stays fixed while a provider lives. -/
structure Setup where
  config : FetchConfig
  /-- The request method of the link resolver, which decides whether resolving is repeated. -/
  resolverMethod : Method
  count : Nat
  totalRows : Int
  codec : Codec
  format : Format
deriving DecidableEq, Repr, Inhabited

/-- The most chunks that are downloading or held at a time. -/
def Setup.allowed (p : Setup) : Nat := min p.config.maxParallel p.count

/-- The setup for the chunks of a manifest. -/
def Setup.ofManifest (m : Manifest) (config : FetchConfig) (resolverMethod : Method) : Setup :=
  { config, resolverMethod, count := m.count, totalRows := m.totalRows, codec := m.codec
    format := m.format }

/-- Where the task of a chunk stands between two stretches. -/
inductive Phase where
  /-- It was started and has not run. -/
  | claimed
  /-- It asked for links. -/
  | resolving (account : Retry.Account)
  /-- It waits before it asks for links again. -/
  | resolvePause (account : Retry.Account)
  /-- It asked for the payload. -/
  | downloading (account : Retry.Account)
  /-- It asked for a new link, because the old one expired before an attempt. -/
  | refreshing (account : Retry.Account)
  /-- It waits before the next attempt. -/
  | downloadPause (account : Retry.Account)
  /-- It ended. -/
  | ended
  /-- It was lost when a sum of waits left the range of durations, or its attempts that of numbers. -/
  | lost
deriving DecidableEq, Repr, Inhabited

/-- A downloaded chunk: its batches, and the bytes that were received for them. -/
structure Download where
  batches : List Batch
  byteCount : Nat
deriving DecidableEq, Inhabited

/-- The rows of a downloaded chunk. -/
def Download.rowCount (d : Download) : Nat := Batch.totalRows d.batches

/-- A chunk as the consumer gets it. -/
structure Handle where
  index : Nat
  rowOffset : Int
  rowCount : Int
  batches : List Batch
deriving DecidableEq, Inhabited

/-- What changes while a provider lives. -/
structure State where
  store : Store
  /-- The task of each claimed chunk; the position is the chunk's index. -/
  tasks : List Phase := []
  /-- Claimed chunks that are not yet held, consumed or failed. -/
  held : Nat := 0
  /-- The most chunks held at a time so far. -/
  peak : Nat := 0
  /-- The chunk handed out last; `-1` before the first. -/
  current : Int := -1
  /-- Chunks whose task has not ended. -/
  inFlight : List Nat := []
  closed : Bool := false
  /-- A chunk failed, and no more are claimed. -/
  halted : Bool := false
  /-- The failure that the consumer has seen, and sees again. -/
  surfaced : Option FetchError := none
deriving DecidableEq, Inhabited

/-- The chunk to be claimed next. -/
def State.next (s : State) : Nat := s.tasks.length

/-- What a stretch asks of the world. -/
inductive Effect where
  /-- Start the task of a chunk. -/
  | spawn (chunk : Nat)
  /-- Ask the resolver for the link of a chunk. -/
  | askLinks (chunk : Nat) (request : LinkRequest)
  /-- Download the payload of a chunk. -/
  | download (chunk : Nat) (link : Link)
  /-- Wake the task of a chunk after a delay. -/
  | sleep (chunk : Nat) (delay : Duration)
  /-- Report an event. -/
  | report (event : ChunkEvent)
  /-- Wake every waiting consumer. -/
  | wake
  /-- Write to the log. -/
  | note (entry : Log.Entry)
deriving DecidableEq, Repr, Inhabited

/-- The state after a stretch, and the effects of the stretch in order. -/
structure Move where
  state : State
  effects : List Effect
deriving DecidableEq, Inhabited

namespace Move

/-- Go on with another stretch. -/
def andThen (m : Move) (f : State → Move) : Move :=
  let n := f m.state
  ⟨n.state, m.effects ++ n.effects⟩

/-- Effects in front of those of a stretch. -/
def after (effects : List Effect) (m : Move) : Move := ⟨m.state, effects ++ m.effects⟩

@[simp] theorem state_andThen (m : Move) (f : State → Move) :
    (m.andThen f).state = (f m.state).state := rfl

@[simp] theorem effects_andThen (m : Move) (f : State → Move) :
    (m.andThen f).effects = m.effects ++ (f m.state).effects := rfl

@[simp] theorem state_after (effects : List Effect) (m : Move) :
    (m.after effects).state = m.state := rfl

@[simp] theorem effects_after (effects : List Effect) (m : Move) :
    (m.after effects).effects = effects ++ m.effects := rfl

end Move

/-- A line of the log about the provider. -/
def note (level : Log.Level) (text : String) : Effect := .note ⟨level, .provider, text⟩

/-- Lines of the log as effects. -/
def notes (entries : List Log.Entry) : List Effect := entries.map .note

namespace State

/-- Set where the task of a chunk stands. -/
def setPhase (s : State) (i : Nat) (phase : Phase) : State :=
  { s with tasks := s.tasks.set i phase }

/-- The state before the first claim. -/
def ofManifest (m : Manifest) : State := { store := .ofManifest m }

/-- May another chunk be claimed? -/
def mayClaim (p : Setup) (s : State) : Bool :=
  !s.closed && !s.halted && s.next < p.count && s.held < p.allowed

/-- Claim the next chunk. -/
def claim (p : Setup) (s : State) : Move :=
  let held := s.held + 1
  { state := { s with
      tasks := s.tasks ++ [.claimed], held, peak := max s.peak held
      inFlight := s.inFlight ++ [s.next] }
    effects :=
      [note .debug (s!"Scheduling chunk {s.next}: chunks_in_memory={held}/{p.allowed}, " ++
        s!"consumer_at={s.current}"), .spawn s.next] }

/-- Claim chunks in order until the bound is reached. -/
def fill (p : Setup) (s : State) : Move :=
  if s.mayClaim p then (fill p (s.claim p).state).after (s.claim p).effects else ⟨s, []⟩
  termination_by p.count - s.next
  decreasing_by
    rename_i h
    simp only [mayClaim, Bool.and_eq_true, decide_eq_true_eq] at h
    simp only [claim, next, List.length_append, List.length_cons, List.length_nil]
    simp only [next] at h
    omega

/-- Would the consumer get another chunk? -/
def hasNext (p : Setup) (s : State) : Bool :=
  !s.closed && s.surfaced.isNone && s.current + 1 < p.count

/-- The provider in words. -/
def describe (p : Setup) (s : State) : String :=
  s!"ChunkProvider \x7b chunk_count: {p.count}, total_row_count: {p.totalRows}, " ++
    s!"allowed_chunks_in_memory: {p.allowed}, next_chunk_to_download: {s.next}, " ++
    s!"total_chunks_in_memory: {s.held}, current_chunk_index: {s.current}, " ++
    s!"in_flight: {s.inFlight.length}, is_closed: {s.closed} \x7d"

end State

/-- A provider for the chunks of a manifest, which starts at once to claim them. -/
def create (m : Manifest) (config : FetchConfig) (resolverMethod : Method) :
    Except ConfigFault (Setup × Move) := do
  config.validate
  let p := Setup.ofManifest m config resolverMethod
  let opened := note .debug (s!"Creating chunk provider: {p.count} chunks, {p.totalRows} rows, " ++
    s!"{p.allowed} allowed in memory, codec={p.codec.name}, format={p.format.name}")
  .ok (p, ((State.ofManifest m).fill p).after [opened])

end ResultChunks.Provider
