import ResultChunks.Provider.State

/-!
# Handing out chunks

`advance` releases the chunk handed out last, claims what may be claimed, and looks for the next
chunk. A consumer that has to wait looks again whenever something changed; one that gives up waiting
changes nothing, and its next `advance` looks for the same chunk. Only a chunk that was handed out
counts as such. A failure is handed out in its chunk's place, and again on every later call.

`close` stops everything: no chunk keeps its batches, and no task's result is taken any more.
-/

namespace ResultChunks.Provider

/-- What a look for a chunk came to. -/
inductive Progress where
  /-- A chunk, the end, or an error. -/
  | done (result : Except FetchError (Option Handle))
  /-- The chunk is not there yet. -/
  | waiting (index : Nat)
deriving Inhabited

namespace State

/-- Consume the chunk handed out last, and free its place. -/
def releaseChunk (s : State) (i : Nat) : Except FetchError Move := do
  let d ← s.store.get i
  if d.status ≠ .downloaded then .ok ⟨s, []⟩
  else
    let (_, store) ← s.store.release i
    let held := s.held - 1
    .ok ⟨{ s with store, held }, notes (s.store.moveLogOf i .consumed) ++
      [note .trace s!"Released chunk {i}: chunks_in_memory={held}"]⟩

/-- Look for a chunk. -/
def look (s : State) (waited : Duration) (index : Nat) : State × List Effect × Progress :=
  if s.closed then (s, [], .done (.error .closed))
  else
    match s.store.get index with
    | .error e => (s, [], .done (.error e))
    | .ok d =>
      match d.status with
      | .downloaded =>
        let handle : Handle := ⟨index, d.rowOffset, d.rowCount, d.batches.getD []⟩
        ({ s with current := index },
          [note .trace s!"Chunk {index} ready after {waited.text}"], .done (.ok (some handle)))
      | .failed =>
        let error := d.error.getD (.invalidState (.failed index))
        ({ s with surfaced := some error }, [], .done (.error error))
      | .consumed | .released =>
        (s, [], .done (.error (.invalidState (.unavailable index))))
      | .pending | .linkResolved | .downloading => (s, [], .waiting index)

/-- Consume the chunk handed out last, if there is one. -/
def releaseCurrent (p : Setup) (s : State) : Except FetchError Move :=
  if 0 ≤ s.current && s.current < p.count then s.releaseChunk s.current.toNat else .ok ⟨s, []⟩

/-- Release the chunk handed out last and look for the next one. -/
def advance (p : Setup) (s : State) : State × List Effect × Progress :=
  if s.closed then (s, [], .done (.error .closed))
  else
    match s.surfaced with
    | some error => (s, [], .done (.error error))
    | none =>
      match s.releaseCurrent p with
      | .error e => (s, [], .done (.error e))
      | .ok m =>
        let next := (s.current + 1).toNat
        if p.count ≤ next then
          ({ m.state with current := p.count },
            m.effects ++ [note .trace s!"Chunk provider exhausted after {p.count} chunks"],
            .done (.ok none))
        else
          let m := m.andThen (fill p)
          let (s, effects, progress) := m.state.look .zero next
          (s, m.effects ++ effects, progress)

/-- What the log says when a consumer has waited for long. -/
def stillWaiting (index : Nat) (waited : Duration) : Effect :=
  note .debug s!"Still waiting for chunk {index} after {waited.text}, continuing..."

/-- Stop everything. -/
def close (s : State) : Move :=
  if s.closed then ⟨s, []⟩
  else
    let aborted := s.inFlight.length
    let freed := s.store.holding
    { state := { s with closed := true, inFlight := [], store := s.store.releaseAll, held := 0 }
      effects :=
        [.wake, note .debug (s!"Chunk provider closed: {aborted} in-flight tasks aborted, " ++
          s!"{freed} chunks freed")] }

end State

end ResultChunks.Provider
