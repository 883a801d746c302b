import ResultChunks.Proofs.Cursor.Rows
import ResultChunks.Proofs.Payload.Schema
import ResultChunks.Reader
import ResultChunks.RowSet.Encode

/-!
# The same payload inline and in a chunk

A payload may come with the answer, or be downloaded as the only chunk of a result. Both ways lead to
the same batches, so a cursor yields the same rows, call by call. What differs is where the schema
comes from when none was declared: an inline cursor takes it from the first batch when it is made, a
cursor over chunks from the first batch that it enters, and it never enters a batch without rows. All
batches of a payload have one schema, so the two agree as soon as there is a row. A payload of
batches without rows has a schema inline, and none in a chunk.
-/

namespace ResultChunks

open Provider

namespace Batch

theorem rowsOf_eq_nil_iff {bs : List Batch} : rowsOf bs = [] ↔ ¬ ∃ b ∈ bs, 0 < b.rows := by
  rw [rowsOf, List.flatMap_eq_nil_iff]
  simp [allRows]

theorem batch_of_mem_rowsOf {bs : List Batch} {r : RowView} (h : r ∈ rowsOf bs) : r.batch ∈ bs := by
  obtain ⟨b, hb, hr⟩ := List.mem_flatMap.1 h
  obtain ⟨i, -, rfl⟩ := List.mem_map.1 hr
  exact hb

/-- **The schema of the first row is that of the first batch**, if all batches have one schema, and
unless there are batches and none of them has rows. -/
theorem head_schema_iff {bs : List Batch} {schema : Schema} (h : ∀ b ∈ bs, b.schema = schema) :
    (bs.head?.map Batch.schema).or ((rowsOf bs).head?.map fun r => r.batch.schema) =
        (rowsOf bs).head?.map (fun r => r.batch.schema) ↔
      bs = [] ∨ ∃ b ∈ bs, 0 < b.rows := by
  cases bs with
  | nil => simp [rowsOf]
  | cons b bs =>
      cases hrows : rowsOf (b :: bs) with
      | nil =>
          refine iff_of_false (fun hsome => (by cases hsome)) ?_
          rintro (hnil | hrow)
          · cases hnil
          · exact rowsOf_eq_nil_iff.1 hrows hrow
      | cons r rows =>
          have hr : r.batch.schema = schema :=
            h _ (batch_of_mem_rowsOf (by rw [hrows]; exact List.mem_cons_self ..))
          have hrow : ∃ b' ∈ b :: bs, 0 < b'.rows := by
            by_contra hnone
            rw [rowsOf_eq_nil_iff.2 hnone] at hrows
            cases hrows
          refine iff_of_true ?_ (Or.inr hrow)
          rw [List.head?_cons, List.head?_cons, Option.map_some, Option.map_some, hr,
            h b (List.mem_cons_self ..)]
          rfl

end Batch

namespace Reader.Plan

/-- A cursor over chunks is made together with its provider, if chunks may be read. -/
theorem startChunks_eq_ok_iff {config : FetchConfig} {method : Method} {m : Manifest}
    {schema : Option Schema} {o : Opened} :
    startChunks config method m schema = .ok o ↔
      (config.enabled || m.isEmpty) = true ∧
        ∃ r, create m config method = .ok r ∧ o = ⟨{ source := .chunks, schema }, some r⟩ := by
  rw [startChunks]
  cases config.enabled <;> cases m.isEmpty <;> cases create m config method <;>
    simp [Except.map, eq_comm]

/-- A cursor over an inline payload has its batches, and knows the schema of the first. -/
theorem start_inline {d : Payload.Decoders} {config : FetchConfig} {method : Method} {codec : Codec}
    {format : Format} {bytes : List UInt8} {batches : List Batch} (hbytes : bytes ≠ [])
    (hdecode : Payload.decode d codec format bytes = .ok batches) :
    start d config method (.inline codec format bytes none) =
      .ok ⟨{ source := .inline (.ofBatches batches), schema := batches.head?.map Batch.schema },
        none⟩ := by
  have hne : bytes.isEmpty = false := by simpa using hbytes
  simp [start, InlineResult.ofPayload, hne, hdecode, Except.map, InlineResult.ofBatches]

end Reader.Plan

namespace Cursor

/-- The only chunk of a result was handed out with the batches of its payload. -/
theorem handles_single {m : Manifest} {w : World} (hout : w.ReadOut m) (hone : m.count = 1)
    {batches : List Batch} (hload : ∀ dl ∈ w.payloads 0, dl.batches = batches) :
    (handles w.log).flatMap Handle.rows = Batch.rowsOf batches := by
  have hlength : (handles w.log).length = 1 := hout.given.trans hone
  obtain ⟨h, hh⟩ := List.length_eq_one_iff.1 hlength
  obtain ⟨dl, hpay, hbatches⟩ := (hout.each (i := 0) (h := h) (by rw [hh]; rfl)).batches
  rw [hh, List.flatMap_singleton, Handle.rows, hbatches,
    hload dl (by rw [hpay]; exact List.mem_singleton_self _)]

/-- **A payload is read alike inline and as the only chunk of a result, but for the schema.** Cursors
over both yield the same rows with the same number of rows read, call by call and up to the end. Once
they are drained they know the same schema exactly if the payload has no batches at all or one of
them has rows. -/
theorem inline_agrees_iff {d : Payload.Decoders} {codec : Codec} {format : Format}
    {bytes : List UInt8} {batches : List Batch} {m : Manifest} {config : FetchConfig}
    {method : Method} {p : Setup} {opened : Move} {w : World} {cc : Cursor} (hd : d.OneSchema)
    (hbytes : bytes ≠ [])
    (hdecode : Payload.decode d codec format bytes = .ok batches) (hone : m.count = 1)
    (hstart : Reader.Plan.startChunks config method m none = .ok ⟨cc, some (p, opened)⟩)
    (hw : World.SoloReachable p opened w) (hload : ∀ dl ∈ w.payloads 0, dl.batches = batches)
    (hdrained : answers w.log = given (handles w.log) ++ [.ok none]) :
    ∃ ci, Reader.Plan.start d config method (.inline codec format bytes none) = .ok ⟨ci, none⟩ ∧
      (∀ n, n ≤ (Batch.rowsOf batches).length + 1 →
        ci.watch n [] = some ((List.range n).map (Sight.at (Batch.rowsOf batches) 0)) ∧
        cc.watch n (answers w.log) =
          some ((List.range n).map (Sight.at (Batch.rowsOf batches) 0))) ∧
      ∃ ci' cc', Drains ci [] (Batch.rowsOf batches) ci' ∧
        Drains cc (answers w.log) (Batch.rowsOf batches) cc' ∧
        ci'.rowsRead = (Batch.rowsOf batches).length ∧
        cc'.rowsRead = (Batch.rowsOf batches).length ∧
        (ci'.schema = cc'.schema ↔ batches = [] ∨ ∃ b ∈ batches, 0 < b.rows) := by
  obtain ⟨-, r, hcreate, hcc⟩ := Reader.Plan.startChunks_eq_ok_iff.1 hstart
  obtain ⟨rfl, hr⟩ := Reader.Plan.Opened.mk.inj hcc
  obtain rfl := Option.some.inj hr
  have hout : w.ReadOut m := World.readOut_reachable hcreate hw (by rw [hdrained]; simp)
  have hinline := ready_new (.inline (.ofBatches batches)) (batches.head?.map Batch.schema)
  have hchunks := ready_new .chunks none
  -- the rows of the payload are what both are to read
  have hleft : left { source := .chunks, schema := none } (handles w.log) =
      Batch.rowsOf batches := handles_single hout hone hload
  obtain ⟨ci', hdi, hreadi, hknowni⟩ := exists_drains [] hinline
  obtain ⟨cc', hdc, hreadc, hknownc⟩ := exists_drains (handles w.log) hchunks
  rw [hleft] at hdc hreadc hknownc
  refine ⟨_, Reader.Plan.start_inline hbytes hdecode, ?_, ci', cc', hdi,
    by rw [hdrained]; exact hdc, hreadi.trans (Nat.zero_add _), hreadc.trans (Nat.zero_add _), ?_⟩
  · intro n hn
    refine ⟨watch_eq [] 1 n hinline hn, ?_⟩
    have hwatch := watch_eq (handles w.log) 1 n hchunks (by rw [hleft]; exact hn)
    rw [hleft] at hwatch
    rw [hdrained]
    exact hwatch
  · obtain ⟨schema, hschema⟩ := Payload.decode_schema hd hdecode
    rw [hknowni, hknownc]
    exact Batch.head_schema_iff hschema

end Cursor

end ResultChunks

namespace ResultChunks.Provider.Sample

/-- One column of zeros. -/
def zeros (rows : Nat) : Batch :=
  ⟨[⟨"n", .int64, true, List.replicate rows (some (0 : Int64))⟩], rows⟩

/-- The column as a row-set. -/
def zerosBytes (rows : Nat) : List UInt8 := (RowSet.encode (zeros rows)).toOption.getD []

/-- One chunk. -/
def single (rows : Nat) : Manifest :=
  ⟨rows, .none, .rowSet, [⟨0, 0, rows, 8 * rows, some (linkUntil 100 0)⟩]⟩

/-- The provider for the only chunk. -/
def openedSingle (rows : Nat) : Setup × Move :=
  (create (single rows) config .get).toOption.getD default

/-- The only chunk is read, and the next call finds the end. -/
def readSingle (rows : Nat) : List Tick :=
  stretch 0 .start 3 ++ stretch 0 (.payload (.ok ⟨[zeros rows], 8 * rows⟩)) 1 ++ advancing dawn ++
  [tick (.call 0)]

/-- What the calls return then. -/
def singleGiven (rows : Nat) : List Answer := given [⟨0, 0, rows, [zeros rows]⟩] ++ [.ok none]

theorem startChunks_single (rows : Nat) :
    Reader.Plan.startChunks config .get (single rows) none =
      .ok ⟨{ source := .chunks, schema := none },
        some ((openedSingle rows).1, (openedSingle rows).2)⟩ :=
  Reader.Plan.startChunks_eq_ok_iff.2 ⟨rfl, _, create_of_validate (by decide +kernel), rfl⟩

end ResultChunks.Provider.Sample

namespace ResultChunks.Cursor

open Provider

/-- A payload with a row is read alike, and both cursors know its schema. -/
theorem inline_agrees_one_row :
    ∃ w ci ci' cc', World.SoloReachable (Sample.openedSingle 1).1 (Sample.openedSingle 1).2 w ∧
      Reader.Plan.start .standard Sample.config .get
        (.inline .none .rowSet (Sample.zerosBytes 1) none) = .ok ⟨ci, none⟩ ∧
      Drains ci [] [⟨Sample.zeros 1, 0⟩] ci' ∧
      Drains { source := .chunks, schema := none } (answers w.log) [⟨Sample.zeros 1, 0⟩] cc' ∧
      ci'.schema = cc'.schema := by
  obtain ⟨w, hw, hans, hpay⟩ : ∃ w,
      World.SoloReachable (Sample.openedSingle 1).1 (Sample.openedSingle 1).2 w ∧
        answers w.log = Sample.singleGiven 1 ∧ w.payloads 0 = [⟨[Sample.zeros 1], 8⟩] :=
    World.exists_soloReachable Sample.dawn (Sample.readSingle 1) (by decide) (by decide +kernel)
  have hdecode : Payload.decode .standard .none .rowSet (Sample.zerosBytes 1) =
      .ok [Sample.zeros 1] := by decide +kernel
  have hload : ∀ dl ∈ w.payloads 0, dl.batches = [Sample.zeros 1] := by simp [hpay]
  have hdrained : answers w.log = given (handles w.log) ++ [.ok none] := by
    rw [handles_of_given hans]
    exact hans
  obtain ⟨ci, hci, -, ci', cc', hdi, hdc, -, -, hschema⟩ :=
    inline_agrees_iff Payload.Decoders.standard_oneSchema (by decide +kernel) hdecode rfl
      (Sample.startChunks_single 1) hw hload hdrained
  have hrow : ∃ b ∈ [Sample.zeros 1], 0 < b.rows := ⟨_, List.mem_singleton_self _, by decide⟩
  exact ⟨w, ci, ci', cc', hw, hci, hdi, hdc, hschema.2 (Or.inr hrow)⟩

/-- **A payload without rows has a schema inline, and none in a chunk.** -/
theorem empty_batch_without_schema :
    ∃ w ci ci' cc',
      Payload.decode .standard .none .rowSet (Sample.zerosBytes 0) = .ok [Sample.zeros 0] ∧
      Reader.Plan.start .standard Sample.config .get
        (.inline .none .rowSet (Sample.zerosBytes 0) none) = .ok ⟨ci, none⟩ ∧
      Reader.Plan.startChunks Sample.config .get (Sample.single 0) none =
        .ok ⟨{ source := .chunks, schema := none },
          some ((Sample.openedSingle 0).1, (Sample.openedSingle 0).2)⟩ ∧
      World.SoloReachable (Sample.openedSingle 0).1 (Sample.openedSingle 0).2 w ∧
      (∀ dl ∈ w.payloads 0, dl.batches = [Sample.zeros 0]) ∧
      Drains ci [] [] ci' ∧
      Drains { source := .chunks, schema := none } (answers w.log) [] cc' ∧
      ci'.schema = some [⟨"n", .int64, true⟩] ∧ cc'.schema = none := by
  obtain ⟨w, hw, hans, hpay⟩ : ∃ w,
      World.SoloReachable (Sample.openedSingle 0).1 (Sample.openedSingle 0).2 w ∧
        answers w.log = Sample.singleGiven 0 ∧ w.payloads 0 = [⟨[Sample.zeros 0], 0⟩] :=
    World.exists_soloReachable Sample.dawn (Sample.readSingle 0) (by decide) (by decide +kernel)
  have hdecode : Payload.decode .standard .none .rowSet (Sample.zerosBytes 0) =
      .ok [Sample.zeros 0] := by decide +kernel
  have hload : ∀ dl ∈ w.payloads 0, dl.batches = [Sample.zeros 0] := by simp [hpay]
  obtain ⟨cc', hdc, hnone⟩ : ∃ cc',
      Drains { source := .chunks, schema := none } (answers w.log) [] cc' ∧ cc'.schema = none := by
    rw [hans]
    exact ⟨_, .ended rfl, rfl⟩
  obtain ⟨ci', hdi, hsome⟩ : ∃ ci',
      Drains { source := .inline (.ofBatches [Sample.zeros 0]),
               schema := some (Sample.zeros 0).schema } [] [] ci' ∧
        ci'.schema = some [⟨"n", .int64, true⟩] :=
    ⟨_, .ended rfl, rfl⟩
  exact ⟨w, _, ci', cc', hdecode, Reader.Plan.start_inline (by decide +kernel) hdecode,
    Sample.startChunks_single 0, hw, hload, hdi, hdc, hsome, hnone⟩

end ResultChunks.Cursor
