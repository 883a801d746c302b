import ResultChunks.Proofs.Cursor.Agreement
import ResultChunks.Proofs.Cursor.Course
import ResultChunks.Proofs.Provider.Close

/-!
# What a closed cursor holds

Batches can be in four places: the batch that a cursor is in, the batches that wait, the store of its
provider, and an inline result. A close clears the first two itself and has the provider clear the
third, and no call of a closed cursor puts anything back. It does not touch an inline result. So what
is held after a close are the batches of an inline result that no call had taken (`held_close`): all
of them if the cursor was closed at once, and none if it was read to its end.
-/

namespace ResultChunks

open Provider (Answer)

/-- The batches that a store holds. -/
def Store.batches (s : Store) : List Batch := s.chunks.flatMap fun d => d.batches.getD []

namespace Provider

theorem Shut.batches_eq {s : State} (h : Shut s) : s.store.batches = [] := by
  refine List.flatMap_eq_nil_iff.2 fun d hd => ?_
  obtain ⟨i, hi⟩ := List.mem_iff_getElem?.1 hd
  rw [h.empty hi]
  rfl

/-- **A provider that was closed is shut in every later world.** -/
theorem World.shut_of_close {m : Manifest} {config : FetchConfig} {method : Method} {p : Setup}
    {opened : Move} {w w₁ w₂ : World} {t : Tick}
    (hcreate : create m config method = .ok (p, opened)) (hw : Reachable p opened w)
    (ht : t.action = .close) (hclose : w.act p t = some w₁)
    (hsteps : Relation.ReflTransGen (Step p) w₁ w₂) : Shut w₂.state := by
  obtain ⟨start, hpast⟩ := hw
  have hreach : Reachable p opened w₁ := ⟨start, hpast.tail ⟨t, hclose⟩⟩
  obtain ⟨now, addition, action⟩ := t
  obtain rfl : action = .close := ht
  obtain rfl := Option.some.inj hclose
  have hshut := shut_reachable hcreate hreach (State.close_closed w.state)
  exact (still_of_steps hshut hsteps).shut hshut

end Provider

namespace Source

/-- The batches that a source holds. Those of chunks are in the store of the provider. -/
def held (store : Store) : Source → List Batch
  | .chunks => store.batches
  | .inline r => r.batches
  | .empty => []

/-- The batches of an inline result that were not taken. -/
def untaken : Source → List Batch
  | .inline r => r.batches
  | .chunks | .empty => []

theorem untaken_of_chunks {s : Source} (h : s = .chunks) : s.untaken = [] := by rw [h]; rfl

end Source

namespace Cursor

/-- The batches that a cursor and its source hold. -/
def held (c : Cursor) (store : Store) : List Batch :=
  c.batch.toList ++ c.pending ++ c.source.held store

/-- A cursor that is closed has no batch left. -/
def Tidy (c : Cursor) : Prop := c.closed = true → c.batch = none ∧ c.pending = []

/-- A step of a call, and what it leaves of a source. -/
structure Draws (s : Source) (x : Cursor × Progress) : Prop where
  chunks : x.1.source = .chunks ↔ s = .chunks
  rest : x.1.source.untaken <:+ s.untaken
  /-- There are no more rows only if all batches were taken. -/
  ended : x.2 = .done (.ok false) → x.1.source.untaken = []
  asks : x.2 = .needsChunk → x.1.source = .chunks

/-- What a cursor is when it was closed as `d`. -/
structure Emptied (d e : Cursor) : Prop where
  batch : e.batch = none
  pending : e.pending = []
  row : e.currentRow = none
  read : e.rowsRead = d.rowsRead
  source : e.source = d.source
  noNext : ∀ chunks, e.hasNext chunks = false
  refuses : ∀ as, e.nextRow as = some (e, .error .closed, as)
  again : e.close = e
  /-- It stays like this, whatever is done with it. -/
  stays : ∀ {as left : List Answer} {sights : List Sight} {f : Cursor}, Course e as sights f left →
    f = e

variable {c c' d : Cursor} {as rest left : List Answer} {result : Except FetchError Bool}
  {sights : List Sight} {s : Source} {x : Cursor × Progress}

/-! ## The cursor -/

theorem tidy_of_open (h : c.closed = false) : Tidy c := fun hclosed => by
  rw [h] at hclosed
  cases hclosed

theorem Tidy.close_eq (h : Tidy c) :
    c.close = { c with closed := true, pending := [], batch := none } := by
  rw [close]
  split
  · rename_i hclosed
    obtain ⟨hbatch, hpending⟩ := h hclosed
    rw [← hbatch, ← hpending, ← hclosed]
  · rfl

/-- **However a cursor is used, it is tidy when it is closed.** -/
theorem Course.tidy (h : Course c as sights d left) (hc : Tidy c) : Tidy d := by
  induction h with
  | stay c as => exact hc
  | @call c c' d as rest left result sights hcall _ ih =>
    by_cases hclosed : c.closed = true
    · rw [nextRow_closed hclosed] at hcall
      cases hcall
      exact ih hc
    · obtain ⟨taken, -, hturn⟩ := turn_of_nextRow (by simpa using hclosed) hcall
      exact ih (tidy_of_open hturn.opened)
  | giveUp hwait _ ih =>
    obtain ⟨hopen, -, rfl, -⟩ := waiting_spec hwait
    exact ih (tidy_of_open hopen)
  | close _ ih =>
    refine ih ?_
    rw [hc.close_eq]
    exact fun _ => ⟨rfl, rfl⟩

/-- **A cursor lets go of its own batches for good when it is closed.** -/
theorem emptied_close (h : Tidy d) : Emptied d d.close where
  batch := by rw [h.close_eq]
  pending := by rw [h.close_eq]
  row := by rw [h.close_eq]; rfl
  read := by rw [h.close_eq]
  source := by rw [h.close_eq]
  noNext := fun chunks => by rw [h.close_eq]; rfl
  refuses := nextRow_closed (close_closed d)
  again := by rw [close, if_pos (close_closed d)]
  stays := fun hcourse => (hcourse.of_closed (close_closed d)).1

/-- **What is held after a close**, if the provider has cleared its store. -/
theorem held_close (h : Tidy d) {store : Store} (hstore : d.source = .chunks → store.batches = []) :
    d.close.held store = d.source.untaken := by
  rw [held, h.close_eq]
  change d.source.held store = _
  cases hsource : d.source with
  | chunks => exact hstore hsource
  | inline r => rfl
  | empty => rfl

/-! ## The source -/

/-- A step that does not touch the source takes nothing from it. -/
theorem draws_done {e : Except FetchError Bool} (c : Cursor) (hended : e ≠ .ok false) :
    Draws c.source (c, .done e) where
  chunks := Iff.rfl
  rest := List.suffix_rfl
  ended := fun h => absurd (Progress.done.inj h) hended
  asks := fun h => by cases h

theorem draws_pull (c : Cursor) : Draws c.source c.pull := by
  cases hsource : c.source with
  | chunks =>
    rw [pull_chunks hsource]
    refine ⟨iff_of_true hsource rfl, ?_, ?_, fun _ => hsource⟩
    · change c.source.untaken <:+ _
      simp only [hsource, List.suffix_refl]
    · intro h
      cases h
  | empty =>
    have hleave : c.leave.source = .empty := hsource
    rw [pull, hsource]
    refine ⟨by rw [hleave], ?_, fun _ => ?_, fun h => by cases h⟩
    · simp only [hleave, List.suffix_refl]
    · rw [hleave]
      rfl
  | inline r =>
    have hsuffix : skipEmpty r.batches <:+ r.batches := List.dropWhile_suffix _
    rw [pull, hsource]
    dsimp only
    split
    · exact ⟨iff_of_false Source.noConfusion Source.noConfusion, List.nil_suffix, fun _ => rfl,
        fun h => by cases h⟩
    · rename_i b bs hskip
      rw [hskip] at hsuffix
      refine ⟨iff_of_false Source.noConfusion Source.noConfusion,
        (List.suffix_cons b bs).trans hsuffix, ?_, fun h => by cases h⟩
      intro h
      cases h

theorem draws_proceed (c : Cursor) : Draws c.source c.proceed := by
  rcases proceed_cases c with ⟨b, bs, hgo, -⟩ | ⟨hgo, -⟩
  · rw [hgo]
    exact draws_done (c.enter b bs) (by simp)
  · rw [hgo]
    exact draws_pull c

theorem draws_next (c : Cursor) : Draws c.source c.next := by
  rw [next]
  split
  · exact draws_done c (by simp)
  · split
    · exact draws_done { c with row := c.row + 1, rowsRead := c.rowsRead + 1 } (by simp)
    · exact draws_proceed c

/-- Only a source of chunks takes an answer, and it has nothing of its own. -/
theorem Draws.receive (h : Draws s (c, .needsChunk)) (a : Answer) : Draws s (c.receive a) := by
  have hc : c.source = .chunks := h.asks rfl
  obtain rfl : s = .chunks := h.chunks.1 hc
  cases a with
  | error e => rw [← hc]; exact draws_done c (by simp)
  | ok chunk =>
    cases chunk with
    | none =>
      refine ⟨iff_of_true hc rfl, ?_, fun _ => ?_, fun h => by cases h⟩
      · change c.source.untaken <:+ _
        simp only [hc, List.suffix_refl]
      · exact Source.untaken_of_chunks hc
    | some g =>
      rw [← hc]
      exact draws_proceed { c with pending := c.pending ++ g.batches }

/-- **What a call leaves of a source.** -/
theorem Draws.of_follow (h : Draws s x) (hcall : follow x as = some (c', result, rest)) :
    Draws s (c', .done result) := by
  -- on the answers, each of which leaves a source of chunks
  induction as generalizing x with
  | nil =>
    obtain ⟨d, result | -⟩ := x
    · cases hcall
      exact h
    · cases hcall
  | cons a as ih =>
    obtain ⟨d, result | -⟩ := x
    · cases hcall
      exact h
    · exact ih (h.receive a) hcall

/-- **Batches of an inline result are taken from the front**, and all of them by the time a call finds
that there are no more rows. -/
theorem Course.untaken (h : Course c as sights d left) :
    d.source.untaken <:+ c.source.untaken ∧
      ((∃ s ∈ sights, s.result = .ok false) → d.source.untaken = []) := by
  induction h with
  | stay c as =>
    refine ⟨List.suffix_rfl, ?_⟩
    rintro ⟨s, hs, -⟩
    cases hs
  | @call c c' d as rest left result sights hcall _ ih =>
    have hdraws := (draws_next c).of_follow hcall
    obtain ⟨hrest, hended⟩ := ih
    refine ⟨hrest.trans hdraws.rest, ?_⟩
    rintro ⟨s, hs, hresult⟩
    rcases List.mem_cons.1 hs with rfl | hs
    · have hnone : c'.source.untaken = [] := hdraws.ended (congrArg Progress.done hresult)
      rw [hnone] at hrest
      exact List.suffix_nil.1 hrest
    · exact hended ⟨s, hs, hresult⟩
  | giveUp hwait _ ih =>
    obtain ⟨-, -, rfl, -⟩ := waiting_spec hwait
    exact ih
  | @close c d as left sights _ ih =>
    have hsame : c.close.source = c.source := by
      rw [Cursor.close]
      split <;> rfl
    rw [hsame] at ih
    exact ih

/-- **A cursor and its source hold nothing after a close, except what an inline result has left.**

* The cursor has no batch, no row and no next row. Calls fail, the number of rows read stays, another
  close does nothing, and so it remains whatever is done with it.
* A provider that is closed with it has no batches in its store in any later world, and another close
  of it does nothing.
* So all that is held then are the batches of an inline result that were not taken, which are the last
  ones of those it had. None is left once a call has found that there are no more rows. -/
theorem held_iff_untaken (hopen : c.closed = false) (hcourse : Course c as sights d left) :
    Emptied d d.close ∧
      (∀ {m : Manifest} {config : FetchConfig} {method : Method} {p : Provider.Setup}
        {opened : Provider.Move} {w w₁ w₂ : Provider.World} {t : Provider.Tick},
        Provider.create m config method = .ok (p, opened) → Provider.World.Reachable p opened w →
        t.action = .close → w.act p t = some w₁ →
        Relation.ReflTransGen (Provider.World.Step p) w₁ w₂ →
        w₂.state.store.batches = [] ∧ w₂.state.hasNext p = false ∧
          w₂.state.close = ⟨w₂.state, []⟩) ∧
      (∀ store : Store, (d.source = .chunks → store.batches = []) →
        (d.close.held store = [] ↔ d.source.untaken = []) ∧
          d.close.held store = d.source.untaken) ∧
      d.source.untaken <:+ c.source.untaken ∧
      ((∃ s ∈ sights, s.result = .ok false) → d.source.untaken = []) := by
  have htidy : Tidy d := hcourse.tidy (tidy_of_open hopen)
  obtain ⟨hrest, hended⟩ := hcourse.untaken
  refine ⟨emptied_close htidy, ?_, ?_, hrest, hended⟩
  · intro m config method p opened w w₁ w₂ t hcreate hw ht hclose hsteps
    have hshut := Provider.World.shut_of_close hcreate hw ht hclose hsteps
    refine ⟨hshut.batches_eq, ?_, Provider.close_eq_of_closed hshut.closed⟩
    rw [Provider.State.hasNext, hshut.closed]
    rfl
  · intro store hstore
    have hheld := held_close htidy hstore
    exact ⟨by rw [hheld], hheld⟩

end Cursor

end ResultChunks

namespace ResultChunks.Cursor

open Provider

namespace Sample

/-- A new cursor over chunks. -/
def overChunks : Cursor := { source := .chunks, schema := none }

/-- A new cursor over an inline result. -/
def overInline (batches : List Batch) : Cursor :=
  { source := .inline (.ofBatches batches), schema := batches.head?.map Batch.schema }

end Sample

/-- Nothing is left of a chunk that was being read, nor of one that arrives after the close. -/
theorem held_iff_untaken_late_payload :
    ∃ (w v : World) (d : Cursor), World.Reachable (Provider.Sample.opened
        Provider.Sample.bothLinks).1 (Provider.Sample.opened Provider.Sample.bothLinks).2 w ∧
      Course Sample.overChunks (answers w.log) [⟨.ok true, some ⟨⟨[], 2⟩, 0⟩, 1⟩] d [] ∧
      v.payloads 1 = [Provider.Sample.payload 1] ∧ d.close.held v.state.store = [] := by
  let p := (Provider.Sample.opened Provider.Sample.bothLinks).1
  have hrun : ∃ w, World.Reachable p (Provider.Sample.opened Provider.Sample.bothLinks).2 w ∧
      answers w.log = given [⟨0, 0, 2, [⟨[], 2⟩]⟩] ∧
      ((w.exec p (Provider.Sample.tick .close :: Provider.Sample.tooLate)).any fun v =>
        decide (v.payloads 1 = [Provider.Sample.payload 1])) = true :=
    World.exists_reachable Provider.Sample.dawn Provider.Sample.waitsForSecond (by decide +kernel)
  obtain ⟨w, hw, hans, hlater⟩ := hrun
  obtain ⟨v, hv, hpay⟩ := (Option.any_eq_true _ _).1 hlater
  obtain ⟨w₁, hclose, hrest⟩ := World.exec_cons hv
  have hcall : Sample.overChunks.nextRow (given [⟨0, 0, 2, [⟨[], 2⟩]⟩]) =
      some (Sample.overChunks.enter ⟨[], 2⟩ [], .ok true, []) := rfl
  obtain ⟨-, hprovider, hheld, huntaken, -⟩ := held_iff_untaken rfl (.call hcall (.stay _ _))
  have hstore : v.state.store.batches = [] :=
    (hprovider (Provider.Sample.create_opened Provider.Sample.bothLinks) hw rfl hclose
      (World.steps_of_exec hrest)).1
  refine ⟨w, v, _, hw, ?_, of_decide_eq_true hpay,
    (hheld _ fun _ => hstore).1.2 (List.suffix_nil.1 huntaken)⟩
  rw [hans]
  exact .call hcall (.stay _ _)

/-- **A cursor that is closed keeps the batches of an inline result that it has not come to**: all of
them if it is closed at once. -/
theorem inline_batches_kept :
    Reader.Plan.start .standard Provider.Sample.config .get
        (.inline .none .rowSet (Provider.Sample.zerosBytes 1) none) =
      .ok ⟨Sample.overInline [Provider.Sample.zeros 1], none⟩ ∧
    (∀ store, (Sample.overInline [Provider.Sample.zeros 1]).close.held store =
      [Provider.Sample.zeros 1]) ∧
    ∃ d, Course (Sample.overInline [Provider.Sample.zeros 2, Provider.Sample.zeros 1]) []
        [⟨.ok true, some ⟨Provider.Sample.zeros 2, 0⟩, 1⟩] d [] ∧
      ∀ store, d.close.held store = [Provider.Sample.zeros 1] := by
  have hdecode : Payload.decode .standard .none .rowSet (Provider.Sample.zerosBytes 1) =
      .ok [Provider.Sample.zeros 1] := by decide +kernel
  have hfirst : ∃ d : Cursor,
      (Sample.overInline [Provider.Sample.zeros 2, Provider.Sample.zeros 1]).nextRow [] =
        some (d, .ok true, []) ∧
      d.currentRow = some ⟨Provider.Sample.zeros 2, 0⟩ ∧ d.rowsRead = 1 ∧
      ∀ store, d.close.held store = [Provider.Sample.zeros 1] :=
    ⟨_, rfl, rfl, rfl, fun store => rfl⟩
  obtain ⟨d, hcall, hrow, hread, hheld⟩ := hfirst
  have hcourse := Course.call hcall (.stay d [])
  rw [hrow, hread] at hcourse
  exact ⟨Reader.Plan.start_inline (by decide +kernel) hdecode, fun store => rfl, d, hcourse, hheld⟩

end ResultChunks.Cursor
