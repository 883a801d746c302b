import ResultChunks.Proofs.Cursor.RowCount

/-!
# The rows of a source, one by one

The position of a cursor is spread over the batch it is in, the batches that wait and the source.
`left` makes one list of it: the rows that are still to come. A call of `next` takes the first row
off that list or finds the list empty. Empty batches and chunks without batches add nothing to the
list, so whatever number of them lies between two rows is passed over inside one call. Hence `n`
calls show the first `n` rows, and the end for each call past the last row.

A call over chunks returns if the provider answers. One that is read without failure hands out its
chunks and then says that there are no more, as often as it is asked.
-/

namespace ResultChunks

open Provider (Answer Handle given)

/-- The rows that a source gives, with the chunks that its provider hands out. -/
def Source.rows (hs : List Handle) : Source → List RowView
  | .chunks => hs.flatMap Handle.rows
  | .inline r => Batch.rowsOf r.batches
  | .empty => []

/-- The answers for a cursor: a provider hands out chunks, and then says a number of times that there
are no more. Other sources need no answers. -/
def Source.supply (hs : List Handle) (ends : Nat) : Source → List Answer
  | .chunks => given hs ++ List.replicate ends (.ok none)
  | .inline _ | .empty => []

namespace Cursor

/-- What is seen of a cursor after a call of `next`. -/
structure Sight where
  result : Except FetchError Bool
  row : Option RowView
  rowsRead : Nat

/-- What is seen after one more than `k` calls, if some rows were to come after `read` others: the
`k`-th of them, or the end. -/
def Sight.at (rows : List RowView) (read k : Nat) : Sight :=
  match rows[k]? with
  | some r => ⟨.ok true, some r, read + k + 1⟩
  | none => ⟨.ok false, none, read + rows.length⟩

/-- Call `next` a number of times, and look at the cursor after each call. -/
def watch (c : Cursor) : Nat → List Answer → Option (List Sight)
  | 0, _ => some []
  | n + 1, as =>
    match c.nextRow as with
    | none => none
    | some (c', result, rest) =>
      (c'.watch n rest).map fun later => ⟨result, c'.currentRow, c'.rowsRead⟩ :: later

/-- The rows that are still to come, with the chunks that the provider hands out. -/
def left (c : Cursor) (hs : List Handle) : List RowView := c.ahead ++ c.source.rows hs

/-- A cursor that is open, and that knows the schema once it has entered a batch. -/
structure Ready (c : Cursor) : Prop where
  opened : c.closed = false
  known : c.batch.isSome = true → c.schema.isSome = true

/-- What a call comes to, if some rows were to come after `read` others: the first of these, or the
end, for which the provider is asked once. -/
inductive Yields (read : Nat) (schema : Option Schema) (rows : List RowView) (ends : Nat) :
    Option (Cursor × Except FetchError Bool × List Answer) → Prop where
  | row {c' : Cursor} {r : RowView} (hs : List Handle) (hready : Ready c')
      (hleft : rows = r :: c'.left hs) (hrow : c'.currentRow = some r)
      (hread : c'.rowsRead = read + 1) (hschema : c'.schema = schema.or (some r.batch.schema)) :
      Yields read schema rows ends (some (c', .ok true, c'.source.supply hs ends))
  | ended {c' : Cursor} (hready : Ready c') (hnone : rows = []) (hleft : c'.left [] = [])
      (hrow : c'.currentRow = none) (hread : c'.rowsRead = read) (hschema : c'.schema = schema) :
      Yields read schema rows ends (some (c', .ok false, c'.source.supply [] (ends - 1)))

/-- A new cursor is ready. -/
theorem ready_new (source : Source) (schema : Option Schema) : Ready { source, schema } :=
  ⟨rfl, nofun⟩

/-! ## One call -/

variable {c : Cursor} (hs : List Handle) (ends : Nat)

theorem ready_enter (hc : Ready c) (b : Batch) (bs : List Batch) : Ready (c.enter b bs) where
  opened := hc.opened
  known := by
    intro _
    change (c.schema.or (some b.schema)).isSome = true
    cases c.schema <;> rfl

/-- A cursor that enters a batch yields its first row. -/
theorem yields_enter (hc : Ready c) {b : Batch} {bs : List Batch} {rows : List RowView}
    (hrows : rows = ⟨b, 0⟩ :: (c.enter b bs).left hs) :
    Yields c.rowsRead c.schema rows ends
      (some (c.enter b bs, .ok true, c.source.supply hs ends)) :=
  .row hs (ready_enter hc b bs) hrows rfl rfl rfl

/-- A cursor that leaves its last batch is at the end. -/
theorem yields_leave (hc : Ready c) (hleft : c.source.rows [] = []) :
    Yields c.rowsRead c.schema [] ends
      (some (c.leave, .ok false, c.source.supply [] (ends - 1))) := by
  refine .ended ⟨hc.opened, by simp [leave]⟩ rfl ?_ rfl rfl rfl
  rw [left, show c.leave.source = c.source from rfl, hleft]
  rfl

/-- Behind its batch, a cursor that has a batch waiting enters it. -/
theorem yields_waiting (hc : Ready c) {b : Batch} {bs : List Batch}
    (hrows : Batch.rowsOf c.pending = ⟨b, 0⟩ :: (c.enter b bs).ahead) :
    Yields c.rowsRead c.schema (Batch.rowsOf c.pending ++ c.source.rows hs) ends
      (some (c.enter b bs, .ok true, c.source.supply hs ends)) :=
  yields_enter hs ends hc (by rw [hrows]; rfl)

theorem pull_chunks (h : c.source = .chunks) :
    c.pull = ({ c with pending := [] }, .needsChunk) := by rw [pull, h]

/-- **Behind its batch, a cursor over chunks goes through the chunks** until one has rows. -/
theorem proceed_chunks_yields (hc : Ready c) (h : c.source = .chunks)
    (hends : 0 < (Batch.rowsOf c.pending ++ hs.flatMap Handle.rows).length + ends) :
    Yields c.rowsRead c.schema (Batch.rowsOf c.pending ++ hs.flatMap Handle.rows) ends
      (follow c.proceed (given hs ++ List.replicate ends (.ok none))) := by
  -- on the chunks, since a call takes them one by one
  induction hs generalizing c with
  | nil =>
    rcases proceed_cases c with ⟨b, bs, hgo, hrows⟩ | ⟨hgo, hnone⟩
    · have hwaiting := yields_waiting [] ends hc hrows
      rw [h] at hwaiting
      rw [hgo, follow_done]
      exact hwaiting
    · rw [hnone] at hends ⊢
      obtain ⟨later, rfl⟩ : ∃ later, ends = later + 1 := ⟨ends - 1, by simp at hends; omega⟩
      have hleave := yields_leave (later + 1) hc (by rw [h]; rfl)
      rw [h] at hleave
      have hfollow : follow ({ c with pending := [] }, .needsChunk)
          (given [] ++ List.replicate (later + 1) (.ok none)) =
          some (c.leave, .ok false, List.replicate later (.ok none)) := follow_done ..
      rw [hgo, pull_chunks h, hfollow]
      exact hleave
  | cons g hs ih =>
    rcases proceed_cases c with ⟨b, bs, hgo, hrows⟩ | ⟨hgo, hnone⟩
    · have hwaiting := yields_waiting (g :: hs) ends hc hrows
      rw [h] at hwaiting
      rw [hgo, follow_done]
      exact hwaiting
    · rw [hnone] at hends ⊢
      rw [hgo, pull_chunks h]
      -- the batches of the chunk are now the ones that wait
      exact ih (c := { c with pending := [] ++ g.batches }) ⟨hc.opened, hc.known⟩ h hends

/-- Behind its batch, a cursor takes the next batches of an inline result. -/
theorem proceed_inline_yields (hc : Ready c) {r : InlineResult} (h : c.source = .inline r) :
    Yields c.rowsRead c.schema (Batch.rowsOf c.pending ++ Batch.rowsOf r.batches) ends
      (follow c.proceed []) := by
  rcases proceed_cases c with ⟨b, bs, hgo, hrows⟩ | ⟨hgo, hnone⟩
  · have hwaiting := yields_waiting [] ends hc hrows
    rw [h] at hwaiting
    rw [hgo, follow_done]
    exact hwaiting
  · rw [hgo, hnone, List.nil_append]
    cases hskip : skipEmpty r.batches with
    | nil =>
      have hpull : c.pull = ({ c.leave with source := .inline { r with batches := [] } },
          .done (.ok false)) := by rw [pull, h]; simp only [hskip]
      have hrows : Batch.rowsOf r.batches = [] := by rw [← rowsOf_skipEmpty, hskip]; rfl
      rw [hpull, follow_done, hrows]
      exact yields_leave (c := { c with source := .inline { r with batches := [] } }) ends
        ⟨hc.opened, hc.known⟩ rfl
    | cons b bs =>
      have hpull : c.pull = (({ c with source := .inline { r with batches := bs } }).enter b [],
          .done (.ok true)) := by rw [pull, h]; simp only [hskip]
      rw [hpull, follow_done]
      refine yields_enter (c := { c with source := .inline { r with batches := bs } }) [] ends
        ⟨hc.opened, hc.known⟩ ?_
      rw [rowsOf_of_skipEmpty hskip c]
      simp [left, ahead, enter, Source.rows, Batch.rowsOf]

/-- Behind its batch, a cursor over nothing comes to its end. -/
theorem proceed_empty_yields (hc : Ready c) (h : c.source = .empty) :
    Yields c.rowsRead c.schema (Batch.rowsOf c.pending) ends (follow c.proceed []) := by
  rcases proceed_cases c with ⟨b, bs, hgo, hrows⟩ | ⟨hgo, hnone⟩
  · have hwaiting := yields_waiting [] ends hc hrows
    rw [h] at hwaiting
    rw [Source.rows, List.append_nil] at hwaiting
    rw [hgo, follow_done]
    exact hwaiting
  · have hleave := yields_leave ends hc (by rw [h]; rfl)
    rw [h] at hleave
    rw [hgo, hnone, pull, h]
    exact hleave

/-- **A call takes the first row that is still to come, or finds that there is none.** It returns if
there is a row or the provider says once more that there are no more chunks. -/
theorem nextRow_yields (hc : Ready c) (hends : 0 < (c.left hs).length + ends) :
    Yields c.rowsRead c.schema (c.left hs) ends (c.nextRow (c.source.supply hs ends)) := by
  rw [nextRow]
  rcases next_cases hc.opened with ⟨b, hb, hgo, hahead⟩ | ⟨hgo, hahead⟩
  · -- the schema is known, since the cursor is in a batch
    have hknown : c.schema = c.schema.or (some b.schema) := by
      have hsome := hc.known (by rw [hb]; rfl)
      cases hschema : c.schema with
      | none => rw [hschema] at hsome; cases hsome
      | some schema => rfl
    rw [hgo, follow_done]
    refine .row (r := ⟨b, c.row + 1⟩) hs ⟨hc.opened, hc.known⟩ ?_ ?_ rfl hknown
    · rw [left, hahead]
      rfl
    · rw [currentRow, hb]
      rfl
  · rw [left, hahead] at hends ⊢
    rw [hgo]
    cases hsource : c.source with
    | chunks =>
      rw [hsource] at hends
      exact proceed_chunks_yields hs ends hc hsource hends
    | inline r => exact proceed_inline_yields ends hc hsource
    | empty =>
      rw [Source.rows, List.append_nil]
      exact proceed_empty_yields ends hc hsource

/-! ## All calls -/

theorem Sight.at_cons_succ (r : RowView) (rows : List RowView) (read k : Nat) :
    Sight.at (r :: rows) read (k + 1) = Sight.at rows (read + 1) k := by
  rw [Sight.at, Sight.at, List.getElem?_cons_succ]
  cases rows[k]? with
  | none => simp; omega
  | some r' => simp; omega

/-- **Calls show the rows that are still to come, and then the end.** -/
theorem watch_eq (n : Nat) (hc : Ready c) (hn : n ≤ (c.left hs).length + ends) :
    c.watch n (c.source.supply hs ends) =
      some ((List.range n).map (Sight.at (c.left hs) c.rowsRead)) := by
  induction n generalizing c hs ends with
  | zero => rfl
  | succ n ih =>
    have hcall := nextRow_yields hs ends hc (by omega)
    rw [watch, List.range_succ_eq_map, List.map_cons, List.map_map]
    generalize c.nextRow (c.source.supply hs ends) = called at hcall
    cases hcall with
    | @row c' r hs' hready hleft hrow hread hschema =>
      have hlater := ih hs' ends hready (by
        rw [hleft, List.length_cons] at hn
        omega)
      dsimp only
      rw [hlater, hleft, hrow, hread]
      simp only [Option.map_some, Function.comp_def, Sight.at_cons_succ]
      rfl
    | @ended c' hready hnone hleft hrow hread hschema =>
      have hlater := ih [] (ends - 1) hready (by
        rw [hnone, List.length_nil] at hn
        rw [hleft, List.length_nil]
        omega)
      dsimp only
      rw [hlater, hleft, hnone, hrow, hread]
      rfl

theorem supply_none (source : Source) : source.supply [] 0 = [] := by cases source <;> rfl

/-- **A cursor can be read to its end**, and knows the schema of the first row then. -/
theorem exists_drains (hc : Ready c) :
    ∃ c', Drains c (c.source.supply hs 1) (c.left hs) c' ∧
      c'.rowsRead = c.rowsRead + (c.left hs).length ∧
      c'.schema = c.schema.or ((c.left hs).head?.map fun r => r.batch.schema) := by
  generalize hrows : c.left hs = rows
  induction rows generalizing c hs with
  | nil =>
    have hcall := nextRow_yields hs 1 hc (by omega)
    generalize hcalled : c.nextRow (c.source.supply hs 1) = called at hcall
    cases hcall with
    | row _ _ hleft _ _ _ => rw [hrows] at hleft; cases hleft
    | @ended c' _ _ _ _ hread hschema =>
      rw [Nat.sub_self, supply_none] at hcalled
      refine ⟨c', .ended hcalled, hread, ?_⟩
      rw [hschema]
      exact (Option.or_none ..).symm
  | cons r rows ih =>
    have hcall := nextRow_yields hs 1 hc (by omega)
    generalize hcalled : c.nextRow (c.source.supply hs 1) = called at hcall
    cases hcall with
    | ended _ hnone _ _ _ _ => rw [hrows] at hnone; cases hnone
    | @row c' r' hs' hready hleft hrow hread hschema =>
      rw [hrows] at hleft
      obtain ⟨rfl, rfl⟩ := List.cons.inj hleft
      obtain ⟨c'', hdrains, hcount, hknown⟩ := ih hs' hready rfl
      refine ⟨c'', .row hcalled hrow hdrains, ?_, ?_⟩
      · rw [hcount, hread, List.length_cons]
        omega
      · rw [hknown, hschema, Option.or_assoc]
        rfl

end Cursor

/-! ## The answers of a provider -/

namespace Provider.World

variable {p : Setup} {w : World} {m : Manifest} {config : FetchConfig} {method : Method}
  {opened : Move}

/-- **A provider that returned no failure returned chunks, and then the end.** -/
theorem answers_of_unfailed (hcreate : create m config method = .ok (p, opened))
    (hw : SoloReachable p opened w) (hok : ∀ e, .error e ∉ answers w.log) :
    ∃ ends, answers w.log = Source.chunks.supply (handles w.log) ends := by
  refine hw.of_open (P := fun w => (∀ e, .error e ∉ answers w.log) →
    ∃ ends, answers w.log = Source.chunks.supply (handles w.log) ends) hcreate ?_ ?_ ?_ hok
  · intro w hw hopen hok
    obtain ⟨rest, hrest, hstage⟩ := ((reads_reachable hcreate hw).2 hopen).stage
    cases hstage with
    | reading => exact ⟨0, hrest⟩
    | @atEnd r => exact ⟨r + 1, hrest⟩
    | @failed r e => exact absurd (by rw [hrest]; simp) (hok e)
  · intro w now _ _ hbefore hok
    rw [answers_move] at hok
    rw [handles, answers_move]
    exact hbefore hok
  · intro w w' hw hclosed hbefore htaken hok
    obtain ⟨more, hlog, hmore⟩ := (htaken.still (shut_reachable hcreate hw.reachable hclosed)).log
    -- a closed provider returns failures only, so it returned nothing more
    have hnone : answers more = [] := by
      refine List.eq_nil_iff_forall_not_mem.2 fun a ha => hok .closed ?_
      rw [hlog, answers_append, ← hmore.answers a ha]
      exact List.mem_append_right _ ha
    have hans : answers w'.log = answers w.log := by
      rw [hlog, answers_append, hnone, List.append_nil]
    rw [hans] at hok
    rw [handles, hans]
    exact hbefore hok

end Provider.World

namespace Cursor

open Provider

/-- **A cursor yields the rows of its source, in order and each once, and then the end**, however the
rows are split into chunks and batches. After `k` calls that found a row the current row is the
`k`-th, and `k` rows were read. Each call past the last row finds none, nothing is current then, and
no row is counted. Every call returns if the provider hands out its chunks and says, as often as it
is asked, that there are no more.

A provider of a single reader that returned no failure did so: what it returned is chunks and then
the end, and if it returned the end, the chunks are all those of the manifest. -/
theorem rows_in_order :
    (∀ (source : Source) (schema : Option Schema) (hs : List Handle) (n : Nat),
        watch { source, schema } n (source.supply hs n) =
          some ((List.range n).map (Sight.at (source.rows hs) 0))) ∧
      ∀ {m : Manifest} {config : FetchConfig} {method : Method} {p : Setup} {opened : Move}
        {w : World}, create m config method = .ok (p, opened) → World.SoloReachable p opened w →
        (∀ e, .error e ∉ answers w.log) →
        ∃ ends, answers w.log = Source.chunks.supply (handles w.log) ends ∧
          (0 < ends → (handles w.log).map Handle.index = List.range m.count) ∧
          ∀ schema n, n ≤ ((handles w.log).flatMap Handle.rows).length + ends →
            watch { source := .chunks, schema } n (answers w.log) =
              some ((List.range n).map (Sight.at ((handles w.log).flatMap Handle.rows) 0)) := by
  refine ⟨fun source schema hs n =>
    watch_eq hs n n (ready_new source schema) (Nat.le_add_left ..), ?_⟩
  intro m config method p opened w hcreate hw hok
  obtain ⟨ends, hans⟩ := World.answers_of_unfailed hcreate hw hok
  refine ⟨ends, hans, ?_, ?_⟩
  · intro hpos
    have hend : (.ok none : Answer) ∈ answers w.log := by
      rw [hans]
      exact List.mem_append_right _ (List.mem_replicate.2 ⟨by omega, rfl⟩)
    have hout := World.readOut_reachable hcreate hw hend
    rw [indices_eq_range fun hi => (hout.each hi).index, hout.given]
  · intro schema n hn
    rw [hans]
    exact watch_eq (handles w.log) ends n (ready_new .chunks schema) hn

/-- A batch without rows is passed over, and the fifth call finds the end. -/
theorem rows_in_order_empty_batch :
    ∃ w, World.SoloReachable (Sample.opened Sample.bothLinks).1
        (Sample.opened Sample.bothLinks).2 w ∧
      (watch { source := .chunks, schema := none } 5 (answers w.log)).map
        (List.map Sight.rowsRead) = some [1, 2, 3, 4, 4] := by
  obtain ⟨w, hw, hans⟩ : ∃ w,
      World.SoloReachable (Sample.opened Sample.bothLinks).1 (Sample.opened Sample.bothLinks).2 w ∧
        answers w.log = Sample.bothGiven [⟨[], 0⟩, ⟨[], 2⟩] :=
    World.exists_soloReachable Sample.dawn (Sample.readBoth [⟨[], 0⟩, ⟨[], 2⟩]) (by decide)
      (by decide +kernel)
  have hok : ∀ e, .error e ∉ answers w.log := by simp [hans, Sample.bothGiven, given]
  obtain ⟨ends, hsupply, -, hwatch⟩ :=
    rows_in_order.2 (Sample.create_opened Sample.bothLinks) hw hok
  have hgiven := handles_of_given hans
  have hends : ends = 1 := by
    rw [hans, hgiven] at hsupply
    have hlength := congrArg List.length hsupply
    simp [Sample.bothGiven, Source.supply, given] at hlength
    omega
  refine ⟨w, hw, ?_⟩
  rw [hwatch none 5 (by rw [hgiven, hends]; decide), hgiven]
  rfl

end Cursor

end ResultChunks
