import ResultChunks.Error
import ResultChunks.Log.Entry

/-!
# Events of chunk tasks

What a chunk task reports of its work: that links arrived, that the chunk was downloaded or failed,
and that something is tried again. A chunk has exactly one of the middle two.
-/

namespace ResultChunks

/-- An event in the life of a chunk task. -/
inductive ChunkEvent where
  /-- Links were resolved for some chunks. -/
  | linksResolved (chunks : List Int) (linkCount attempts : Nat) (elapsed : Duration)
  /-- A chunk was downloaded. -/
  | downloaded (chunk : Int) (byteCount rowCount attempts : Nat) (elapsed : Duration)
  /-- A chunk failed. -/
  | failed (chunk : Int) (retries : Nat) (elapsed : Duration) (error : FetchError)
  /-- An attempt failed and another one is due after a delay. -/
  | retry (chunk : Int) (cls : FailureClass) (attempt : Nat) (delay : Duration)
deriving DecidableEq, Repr, Inhabited

namespace ChunkEvent

/-- What the log says about an event. -/
def entry : ChunkEvent → Log.Entry
  | linksResolved chunks linkCount attempts elapsed =>
    ⟨.debug, .telemetry, s!"chunk links resolved chunk_indices={FetchError.indexList chunks} " ++
      s!"link_count={linkCount} attempts={attempts} duration_ms={elapsed.millis}"⟩
  | downloaded chunk byteCount rowCount attempts elapsed =>
    ⟨.debug, .telemetry, s!"chunk downloaded chunk_index={chunk} byte_count={byteCount} " ++
      s!"row_count={rowCount} attempts={attempts} duration_ms={elapsed.millis}"⟩
  | failed chunk retries elapsed error =>
    ⟨.warn, .telemetry, s!"chunk download failed chunk_index={chunk} retry_count={retries} " ++
      s!"duration_ms={elapsed.millis} error={error.message}"⟩
  | retry chunk cls attempt delay =>
    ⟨.debug, .telemetry, s!"chunk retry scheduled chunk_index={chunk} class={cls.name} " ++
      s!"attempt={attempt} delay_ms={delay.millis}"⟩

end ChunkEvent

end ResultChunks
