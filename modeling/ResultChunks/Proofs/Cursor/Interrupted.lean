import ResultChunks.Proofs.Cursor.Course
import ResultChunks.Proofs.Provider.Abandon

/-!
# A call that is interrupted loses nothing

A call of `next` can fail, or it can be given up while it waits for the provider. By then it has
passed batches without rows, the provider has let go of the chunk before, and it may have claimed
others. None of this matters to the rows. The cursor has only dropped what has no row, and the
provider looks for the same chunk again when it is called again, or it returns the same failure.
-/

namespace ResultChunks.Cursor

open Provider

/-- **A call that fails or is given up loses nothing.**

* A call of an open cursor that fails leaves the row, the number of rows read and the schema as they
  were. All that comes later is as if the chunks that the call was given, which have no rows, came
  later too. Where the failure is returned again, every later call fails with it.
* The same holds of a call that is given up while it waits.
* However failed calls, calls that are given up and others are mixed, the rows that were found and
  those that are to come are the rows that were to come before, with those of the chunks that came.
* A provider whose single reader gives up waiting and calls again later, while tasks run on, comes to
  the same state, answers and log as one whose reader waits all the time, whatever happens then.
* A failure that the provider returned is what it returns from then on, until it is closed. -/
theorem interrupted_calls_lose_nothing :
    (∀ {c c' : Cursor} {as rest : List Answer} {e : FetchError}, c.closed = false →
        c.nextRow as = some (c', .error e, rest) →
        ∃ hs, as = given hs ++ .error e :: rest ∧ Unmoved c c' hs ∧
          ∀ n, c'.watch n (List.replicate n (.error e)) =
            some (List.replicate n ⟨.error e, c.currentRow, c.rowsRead⟩)) ∧
      (∀ {c c' : Cursor} {as : List Answer}, c.waiting as = some c' →
        ∃ hs, as = given hs ∧ Unmoved c c' hs) ∧
      (∀ {c d : Cursor} {as left : List Answer} {sights : List Sight}, Course c as sights d left →
        d.closed = false → ∃ taken, as = taken ++ left ∧
          d.rowsRead = c.rowsRead + (found sights).length ∧
          ∀ hs, c.left (chunksIn taken ++ hs) = found sights ++ d.left hs) ∧
      ∀ {m : Manifest} {config : FetchConfig} {method : Method} {p : Setup} {opened : Move}
        {w : World}, create m config method = .ok (p, opened) → World.SoloReachable p opened w →
        w.state.closed = false →
        (∀ {r n : Nat} {ts : List Tick}, w.readers r = some (.look n) →
          ts.all (fun t => t.action.isTask) = true →
          ∀ (now now₁ now₂ : Moment) (addition addition₁ addition₂ : Duration) (more : List Tick),
            (w.exec p (⟨now, addition, .abandon r⟩ :: ts ++
                ⟨now₁, addition₁, .call r⟩ :: ⟨now₂, addition₂, .fill r⟩ :: more)).map
                World.present =
              (w.exec p (ts ++ more)).map World.present) ∧
        ∀ e, (.error e : Answer) ∈ answers w.log →
          ∀ v, Relation.ReflTransGen (World.SoloStep p) w v → v.state.closed = false →
            ∃ k, answers v.log = answers w.log ++ List.replicate k (.error e) := by
  refine ⟨?_, fun hwait => unmoved_of_waiting hwait, fun hcourse => hcourse.rows, ?_⟩
  · intro c c' as rest e hopen hcall
    obtain ⟨before, rfl, hwait⟩ := waiting_of_error hopen hcall
    obtain ⟨hs, rfl, hunmoved⟩ := unmoved_of_waiting hwait
    exact ⟨hs, rfl, hunmoved, watch_error hwait⟩
  · intro m config method p opened w hcreate hw hopen
    refine ⟨fun hr hts => World.abandon_undone hcreate hw hopen hr hts, ?_⟩
    intro e he v hsteps hopen'
    exact (World.fails_later hcreate hw he hsteps hopen').2

/-- A cursor is given a chunk without rows and then a failure. A reader that waits for chunk 1 gives
up and calls again after the payload has arrived. After chunk 1 has failed, calls return its failure. -/
theorem interrupted_calls_lose_nothing_two_chunks :
    (∃ hs, Unmoved { source := .chunks, schema := none } { source := .chunks, schema := none } hs ∧
        hs.length = 1) ∧
      (∃ w, World.SoloReachable (Sample.opened Sample.bothLinks).1
          (Sample.opened Sample.bothLinks).2 w ∧ w.readers 0 = some (.look 1) ∧
        (w.exec (Sample.opened Sample.bothLinks).1 (Sample.tick (.abandon 0) ::
            Sample.stretch 1 (.payload (.ok (Sample.payload 1))) 1 ++
            [Sample.tick (.call 0), Sample.tick (.fill 0), Sample.tick (.look 0)])).map
            World.present =
          (w.exec (Sample.opened Sample.bothLinks).1
            (Sample.stretch 1 (.payload (.ok (Sample.payload 1))) 1 ++
              [Sample.tick (.look 0)])).map World.present) ∧
      ∃ w e, World.SoloReachable (Sample.opened Sample.bothLinks).1
          (Sample.opened Sample.bothLinks).2 w ∧ (.error e : Answer) ∈ answers w.log ∧
        ∀ v, Relation.ReflTransGen (World.SoloStep (Sample.opened Sample.bothLinks).1) w v →
          v.state.closed = false →
          ∃ k, answers v.log = answers w.log ++ List.replicate k (.error e) := by
  obtain ⟨hfails, -, -, hprovider⟩ := interrupted_calls_lose_nothing
  have hcreate := Sample.create_opened Sample.bothLinks
  refine ⟨?_, ?_, ?_⟩
  · have hcall : nextRow { source := .chunks, schema := none }
        [.ok (some ⟨0, 0, 0, [⟨[], 0⟩]⟩), .error .cancelled] =
          some ({ source := .chunks, schema := none }, .error .cancelled, []) := rfl
    obtain ⟨hs, has, hunmoved, -⟩ := hfails rfl hcall
    refine ⟨hs, hunmoved, ?_⟩
    have hlength := congrArg List.length has
    simp [given] at hlength
    omega
  · obtain ⟨w, hw, hopen, hreader⟩ : ∃ w,
        World.SoloReachable (Sample.opened Sample.bothLinks).1
            (Sample.opened Sample.bothLinks).2 w ∧
          w.state.closed = false ∧ w.readers 0 = some (.look 1) :=
      World.exists_soloReachable Sample.dawn Sample.waitsForSecond (by decide) (by decide +kernel)
    obtain ⟨hagain, -⟩ := hprovider hcreate hw hopen
    exact ⟨w, hw, hreader, hagain hreader rfl Sample.dawn Sample.dawn Sample.dawn .zero .zero .zero
      [Sample.tick (.look 0)]⟩
  · obtain ⟨w, hw, hopen, herror⟩ : ∃ w,
        World.SoloReachable (Sample.opened Sample.bothLinks).1
            (Sample.opened Sample.bothLinks).2 w ∧
          w.state.closed = false ∧ ((answers w.log).any fun a => !a.isOk) = true :=
      World.exists_soloReachable Sample.dawn Sample.failsAhead (by decide) (by decide +kernel)
    obtain ⟨-, hsticky⟩ := hprovider hcreate hw hopen
    obtain ⟨a, ha, hnotOk⟩ := List.any_eq_true.1 herror
    cases a with
    | error e => exact ⟨w, e, hw, ha, hsticky e ha⟩
    | ok answer => cases hnotOk

end ResultChunks.Cursor
