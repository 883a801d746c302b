import ResultChunks.Rehearsal.Script
import ResultChunks.Rehearsal.Trace
import ResultChunks.Resolver.Rpc
import ResultChunks.Resolver.Statement
import ResultChunks.Retry.Policy

/-!
# A link service in a rehearsal

Links come from a script itself, or from one of the two resolvers whose server follows a script. A
call of a resolver is a chain of queries; a `Call` is the answer to one of them that is on its way,
with what the resolver needs to go on. The service is a value, so what a call leaves behind, used
cues and remembered links, is in the service that it returns.
-/

namespace ResultChunks.Rehearsal

/-- Where links come from. `usual` is the answer of a server without a cue. -/
inductive LinkService where
  /-- Links as the script says. -/
  | direct (method : Method) (script : Script LinkTable) (usual : List LinkRequest → LinkTable)
  /-- The resolver of the statement interface. -/
  | pages (statement : String) (script : Script Statement.LinkPage)
      (usual : Int → Except FetchError Statement.LinkPage)
  /-- The resolver of the older interface. -/
  | files (statement : String) (script : Script (List Rpc.ResultLink))
      (usual : Int → Except FetchError (List Rpc.ResultLink)) (memory : Rpc.Resolver.Memory)

/-- An answer that is on its way. -/
inductive Call where
  | links (result : Except FetchError LinkTable)
  | page (index : Int) (progress : Statement.Resolver.Progress)
      (result : Except FetchError Statement.LinkPage)
  | files (request : LinkRequest) (progress : Rpc.Resolver.Progress)
      (result : Except FetchError (List Rpc.ResultLink))

/-- What a call does next. -/
inductive Turnout where
  /-- It answers. -/
  | answer (result : Except FetchError LinkTable)
  /-- It waits for the server. -/
  | pending (delay : Nat) (call : Call)

/-- What a stretch of a call leads to. -/
structure Reply where
  service : LinkService
  mentions : List Mention := []
  log : List Log.Entry := []
  turnout : Turnout

namespace LinkService

/-- The method of the service's requests. -/
def method : LinkService → Method
  | direct method _ _ => method
  | pages _ _ _ => .get
  | files _ _ _ _ => .post

/-- Query the statement interface, if the resolver needs to. -/
def followPages (statement : String) (script : Script Statement.LinkPage)
    (usual : Int → Except FetchError Statement.LinkPage) (log : List Log.Entry) :
    Statement.Resolver.Step → Reply
  | .answer result => ⟨.pages statement script usual, [], log, .answer result⟩
  | .ask index progress =>
    let (cue, script) := script.take index
    ⟨.pages statement script usual, [⟨chunkKey index, .pageQuery statement⟩], log,
      .pending cue.delay (.page index progress (cue.answer (usual index)))⟩

/-- Query the older interface, if the resolver needs to. -/
def followFiles (statement : String) (script : Script (List Rpc.ResultLink))
    (usual : Int → Except FetchError (List Rpc.ResultLink)) (memory : Rpc.Resolver.Memory)
    (log : List Log.Entry) : Rpc.Resolver.Step → Reply
  | .answer result => ⟨.files statement script usual memory, [], log, .answer result⟩
  | .ask request progress =>
    let offset := request.rowOffset
    let (cue, script) := script.take offset
    ⟨.files statement script usual memory, [⟨rowKey offset, .fileQuery statement⟩], log,
      .pending cue.delay (.files request progress (cue.answer (usual offset)))⟩

/-- Begin a call. -/
def begin (s : LinkService) (wall : Timestamp) (requests : List LinkRequest) : Reply :=
  match s with
  | .direct method script usual =>
    match requests with
    | [] => ⟨s, [], [], .answer (.ok (usual []))⟩
    | first :: _ =>
      let (cue, script) := script.take first.chunkIndex
      ⟨.direct method script usual, [⟨chunkKey first.chunkIndex, .resolve first.rowOffset⟩], [],
        .pending cue.delay (.links (cue.answer (.ok (usual requests))))⟩
  | .pages statement script usual =>
    followPages statement script usual []
      (Statement.Resolver.next (Statement.Resolver.start requests))
  | .files statement script usual memory =>
    followFiles statement script usual memory []
      (Rpc.Resolver.next memory wall (Rpc.Resolver.start requests))

/-- Go on with a call when an answer has come. -/
def resume (s : LinkService) (wall : Timestamp) : Call → Reply
  | .links result => ⟨s, [], [], .answer result⟩
  | .page index progress result =>
    match s with
    | .pages statement script usual =>
      followPages statement script usual (Statement.Resolver.acceptLog statement index result)
        (Statement.Resolver.accept index progress result)
    | _ => ⟨s, [], [], .answer (.error .cancelled)⟩
  | .files request progress result =>
    match s with
    | .files statement script usual memory =>
      let log := Rpc.Resolver.acceptLog memory statement request result
      let (memory, step) := Rpc.Resolver.accept memory wall request progress result
      followFiles statement script usual memory log step
    | _ => ⟨s, [], [], .answer (.error .cancelled)⟩

/-! ## A call on its own -/

/-- A call that ran to its end. -/
structure Finished where
  service : LinkService
  time : Nat
  trace : Trace
  log : List Log.Entry
  result : Except FetchError LinkTable

/-- Wait for answers until a call ends. Each query takes one of the requested chunks, so their
number bounds the chain. -/
def finish : Nat → Timestamp → Nat → Trace → List Log.Entry → Reply → Finished
  | 0, _, time, trace, log, r => ⟨r.service, time, trace, log, .error .cancelled⟩
  | fuel + 1, wall, time, trace, log, r =>
    let trace := (r.mentions.map fun m => (time, m)).reverse ++ trace
    let log := log ++ r.log
    match r.turnout with
    | .answer result => ⟨r.service, time, trace, log, result⟩
    | .pending delay call => finish fuel wall (time + delay) trace log (r.service.resume wall call)

/-- Run a call that begins at a time. -/
def run (s : LinkService) (wall : Timestamp) (time : Nat) (requests : List LinkRequest) :
    Finished :=
  finish (requests.length + 2) wall time [] [] (s.begin wall requests)

end LinkService

end ResultChunks.Rehearsal
