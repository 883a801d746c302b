import ResultChunks.Proofs.Provider.Settlement

/-!
# Which tasks are accounted for

A task is over when it ended, or when it was lost: a sum of waits left the range of durations, or there
was no number left for its next attempt. A task that ended has its accounts in order, whatever happened
since. One that was lost never reports how it ended, and its chunk stays at work until a close releases
it.
-/

namespace ResultChunks.Provider

namespace World

variable {p : Setup} {w : World} {m : Manifest} {config : FetchConfig} {method : Method}
  {opened : Move} {answers : List (Except FetchError LinkTable)}
  {outcomes : List (Except FetchError Download)} {told : List ChunkEvent} {last : ChunkEvent}
  {r : TaskResult} {d : Descriptor} {i : Nat}

/-! ## A task that was lost -/

/-- The task of a chunk was lost while the provider was open. -/
def lostOpen (w : World) (i : Nat) : Prop :=
  ∃ s ∈ w.past, s.closed = false ∧ s.tasks[i]? = some .lost

/-- The task of a chunk was over before the close: it ended, or it was lost. -/
def stoppedOpen (w : World) (i : Nat) : Prop := w.endedOpen i ∨ w.lostOpen i

/-- **Of a task that was lost nobody hears how it ended.** -/
structure Silent (w : World) (i : Nat) : Prop where
  rested : w.Rested i .lost
  /-- Nothing was reported of its end. -/
  told : (reportsOf i w.log).any ChunkEvent.isLast = false
  /-- Up to the close the chunk is at work. -/
  became : ∀ {status : ChunkStatus}, w.became i status →
    status.wantsLink = true ∨ status = .consumed ∨ status = .released

theorem silent_of_lost (hcreate : create m config method = .ok (p, opened))
    (hw : Reachable p opened w) (hopen : w.state.closed = false)
    (h : w.state.tasks[i]? = some .lost) : w.Silent i where
  rested := rested_of_over hcreate hw hopen rfl h
  told := by
    have htally := tallied_reachable hcreate hw hopen i
    rw [Tallied, h, (rested_of_over hcreate hw hopen rfl h).point] at htally
    exact htally
  became := fun hbecame =>
    Or.inl (atWork_reachable hcreate hw hopen (by rw [h]; simp) hbecame)

theorem silent_reachable (hcreate : create m config method = .ok (p, opened))
    (h : Reachable p opened w) : w.lostOpen i → w.Silent i := by
  obtain ⟨now, hsteps⟩ := h
  induction hsteps with
  | refl =>
      rintro ⟨s, hs, hopen, hlost⟩
      obtain rfl := List.mem_singleton.1 hs
      exact silent_of_lost hcreate ⟨now, .refl⟩ hopen hlost
  | @tail w w' hpast hlast ih =>
      intro hlost'
      have hw' : Reachable p opened w' := ⟨now, hpast.tail hlast⟩
      have ht := hlast.taken
      by_cases hlost : w.lostOpen i
      · -- it was lost before: the action spares the task, and a close releases the chunk
        have hsilent := ih hlost
        have hspares := ht.spares hsilent.rested
        refine ⟨hspares.rested, by rw [hspares.told]; exact hsilent.told, ?_⟩
        rintro status ⟨s, hs, d, hd, rfl⟩
        rcases ht.of_mem_past hs with rfl | hs
        · cases hc : w'.state.closed with
          | true => exact Or.inr ((shut_reachable hcreate hw' hc).final hd)
          | false =>
              have hrunning : w'.state.tasks[i]? ≠ some .ended := by
                rw [hspares.rested.task]
                simp
              exact Or.inl ((sound_reachable hcreate hw').atWork hc hrunning hd)
        · exact hsilent.became ⟨s, hs, d, hd, rfl⟩
      · obtain ⟨s, hs, hopen, htask⟩ := hlost'
        rcases ht.of_mem_past hs with rfl | hs
        · exact silent_of_lost hcreate hw' hopen htask
        · exact absurd ⟨s, hs, hopen, htask⟩ hlost

/-- No report tells how it ended, and its chunk is neither downloaded nor failed. -/
theorem Silent.never (h : w.Silent i) : (reportsOf i w.log).filter ChunkEvent.isLast = []
    ∧ ¬ w.became i .downloaded ∧ ¬ w.became i .failed := by
  refine ⟨List.filter_eq_nil_iff.2 (List.any_eq_false.1 h.told), fun hno => ?_, fun hno => ?_⟩
  · rcases h.became hno with hno | hno | hno <;> cases hno
  · rcases h.became hno with hno | hno | hno <;> cases hno

/-- **The accounts of a chunk agree with what happened**: the attempts to resolve its link came to
`answers` and those at its payload to `outcomes`, its task reported `told` and then `last`, and came to
`r`. -/
structure Agrees (p : Setup) (w : World) (i : Nat) (answers : List (Except FetchError LinkTable))
    (outcomes : List (Except FetchError Download)) (told : List ChunkEvent) (last : ChunkEvent)
    (r : TaskResult) (d : Descriptor) : Prop where
  chunk : w.state.store.chunks[i]? = some d
  /-- The report of every retry has the class and the wait decided for it. -/
  concludes : Concludes p i (w.asked i) (heardBy i w.log) told answers outcomes r
  reports : reportsOf i w.log = told ++ [last]
  /-- Exactly one report tells how the task ended. -/
  lasts : (reportsOf i w.log).filter ChunkEvent.isLast = [last]
  downloaded : (∃ bytes rows elapsed, last = .downloaded i bytes rows d.attempts elapsed) ↔
    w.became i .downloaded
  failed : (∃ elapsed e, last = .failed i (d.attempts - 1) elapsed e ∧ d.error = some e
      ∧ ∀ k n source, e = .chunkDownload k n source → k = i ∧ n = d.attempts - 1) ↔
    w.became i .failed
  either : w.became i .downloaded ↔ ¬ w.became i .failed
  attempts : d.attempts = r.attempts
  retries : d.retries = d.attempts - 1
  /-- These are the attempts of the operation that ended the task. -/
  operation : d.attempts = (if outcomes.length = 0 then answers.length else outcomes.length)
  resolved : 0 < answers.length ↔ w.asked i
  retried : (reportsOf i w.log).countP ChunkEvent.isRetry =
    (answers.length - 1) + (outcomes.length - 1)

/-- The accounts of a task that ended agree. -/
theorem Accounted.agrees (h : Accounted p w i answers outcomes told last r d) :
    Agrees p w i answers outcomes told last r d where
  chunk := h.chunk
  concludes := h.concludes
  reports := h.reports
  lasts := h.lasts
  downloaded := by
    rw [h.attempts]
    cases h.verdict with
    | downloaded hr elapsed became never => exact iff_of_true ⟨_, _, _, rfl⟩ became
    | failed elapsed he retries became never =>
        refine iff_of_false ?_ never
        rintro ⟨bytes, rows, elapsed, hlast⟩
        cases hlast
  failed := by
    rw [h.attempts]
    cases h.verdict with
    | downloaded hr elapsed became never =>
        refine iff_of_false ?_ never
        rintro ⟨elapsed, e, hlast, -⟩
        cases hlast
    | failed elapsed he retries became never =>
        exact iff_of_true ⟨elapsed, _, rfl, he, retries⟩ became
  either := by
    cases h.verdict with
    | downloaded hr elapsed became never => exact iff_of_true became never
    | failed elapsed he retries became never => exact iff_of_false never fun hno => hno became
  attempts := h.attempts
  retries := by rw [h.attempts, h.retries]
  operation := by rw [h.attempts, h.adds.last]
  resolved := h.adds.asked
  retried := h.retried

end World

namespace Sample

/-- The server is busy. -/
def busy : FetchError := .http 503 none ""

/-- The server is busy, and asks for the longest wait. -/
def busyForever : FetchError := .http 503 (some (.ofSecs 18446744073709551615)) ""

/-- The link of chunk 0 is resolved with the second attempt, and its payload arrives with the
third. -/
def busyTwice : List Tick :=
  stretch 0 .start 2 ++ stretch 0 (.links (.error busy)) 0 ++ stretch 0 .waitOver 1 ++
  stretch 0 (.links (.ok [(0, linkUntil 100 0)])) 4 ++ stretch 0 (.payload (.error busy)) 0 ++
  stretch 0 .waitOver 1 ++ stretch 0 (.payload (.error busy)) 0 ++ stretch 0 .waitOver 1 ++
  stretch 0 (.payload (.ok (payload 0))) 1

/-- The link of chunk 0 is asked for twice, and the second wait is too long to be counted. -/
def waitsForever : List Tick :=
  stretch 0 .start 2 ++ stretch 0 (.links (.error busy)) 0 ++ stretch 0 .waitOver 1 ++
  stretch 0 (.links (.error busyForever)) 0

end Sample

end ResultChunks.Provider
