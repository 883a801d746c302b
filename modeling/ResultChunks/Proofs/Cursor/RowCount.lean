import ResultChunks.Proofs.Cursor.Drain
import ResultChunks.Proofs.Manifest.Geometry
import ResultChunks.Proofs.Provider.Close
import ResultChunks.Proofs.Provider.InOrder

/-!
# How many rows a result has

A cursor that was read to its end has read the rows of every chunk, and the rows of a chunk are those
of the payload that its task got. The manifest says how many these should be. Neither the provider
nor the cursor compares the two: a payload of another size than declared is a line in the log of the
download. So the rows read add up to the total, chunk by chunk, exactly if every payload that arrived
has the declared number of rows.
-/

namespace ResultChunks.Provider.World

variable {p : Setup} {w w' : World} {m : Manifest} {config : FetchConfig} {method : Method}
  {opened : Move}

/-! ## When all chunks were handed out -/

/-- A chunk was handed out with its declared size and the batches of its only payload. -/
structure Received (m : Manifest) (w : World) (i : Nat) (h : Handle) : Prop where
  index : h.index = i
  count : ∃ c, m.chunks[i]? = some c ∧ h.rowCount = c.rowCount
  batches : ∃ dl, w.payloads i = [dl] ∧ h.batches = dl.batches

/-- All chunks were handed out, and no task will run again. -/
structure ReadOut (m : Manifest) (w : World) : Prop where
  each : ∀ {i : Nat} {h : Handle}, (handles w.log)[i]? = some h → Received m w i h
  given : (handles w.log).length = m.count
  ended : ∀ {i : Nat} {phase : Phase}, w.state.tasks[i]? = some phase → phase = .ended
  idle : ∀ i, w.points i = none

/-- This is a matter of the tasks, the payloads and what was handed out only. -/
theorem ReadOut.congr (h : ReadOut m w) (htasks : w'.state.tasks = w.state.tasks)
    (hpoints : w'.points = w.points) (hpay : w'.payloads = w.payloads)
    (hgiven : handles w'.log = handles w.log) : ReadOut m w' := by
  refine ⟨?_, by rw [hgiven]; exact h.given, by rw [htasks]; exact h.ended, by
    rw [hpoints]; exact h.idle⟩
  intro i g hi
  rw [hgiven] at hi
  obtain ⟨hindex, hcount, hbatches⟩ := h.each hi
  exact ⟨hindex, hcount, by rw [hpay]; exact hbatches⟩

/-- While the provider is open, the end is returned only when all chunks were handed out. -/
theorem readOut_of_open (hcreate : create m config method = .ok (p, opened))
    (hw : SoloReachable p opened w) (hopen : w.state.closed = false)
    (hnone : (.ok none : Answer) ∈ answers w.log) : ReadOut m w := by
  have hreads := (reads_reachable hcreate hw).2 hopen
  have horigin := origin_reachable hcreate hw.reachable hopen
  have hover := over_of_end hcreate hw hopen hnone
  have hcount : p.count = m.count := by
    obtain ⟨rfl, -⟩ := create_eq hcreate
    rfl
  refine ⟨?_, hover.given.trans hcount, hover.ended, hover.idle⟩
  intro i h hi
  obtain ⟨d, hd, hh⟩ := hreads.handed hi
  obtain ⟨c, hc, -, hrows⟩ := horigin.extent hd
  exact ⟨hh.index, ⟨c, hc, hh.count.trans hrows⟩, hh.batches⟩

variable {more : List Event}

/-- Calls that a closed provider refuses hand out nothing. -/
theorem handles_of_declined (h : Declined more) (hlog : w'.log = w.log ++ more) :
    handles w'.log = handles w.log := by
  have hans : answers w'.log = answers w.log ++ answers more := by rw [hlog, answers_append]
  rw [handles_of_answers hans, List.filterMap_eq_nil_iff.2 ?_, List.append_nil]
  intro a ha
  rw [h.answers a ha]

/-- Nor do they say that there are no more chunks. -/
theorem end_of_declined (h : Declined more) (hlog : w'.log = w.log ++ more)
    (hnone : (.ok none : Answer) ∈ answers w'.log) : (.ok none : Answer) ∈ answers w.log := by
  rw [hlog, answers_append] at hnone
  rcases List.mem_append.1 hnone with hin | hin
  · exact hin
  · cases h.answers _ hin

/-- **A world that was read out stays so after a close.** -/
theorem ReadOut.taken (h : ReadOut m w) (hshut : Shut w.state) (ht : Taken p w w') :
    ReadOut m w' := by
  obtain ⟨more, hlog, hmore⟩ := (ht.still hshut).log
  have hgiven := handles_of_declined hmore hlog
  cases ht with
  | heard now hp hl =>
    -- a task that ended hears nothing
    obtain ⟨phase, hph, hne⟩ := State.hear_phase hl
    exact absurd (h.ended hph) hne
  | @ran i pt now addition hp =>
    rw [h.idle i] at hp
    cases hp
  | called now hk =>
    rw [moveOn_of_closed hshut.closed] at hgiven ⊢
    exact h.congr rfl rfl (payloads_runReader ..) hgiven
  | @filled k n now hk =>
    rw [claims_of_closed hshut.closed] at hgiven ⊢
    exact h.congr rfl rfl (payloads_runReader ..) hgiven
  | looked now hk =>
    rw [look_of_closed hshut.closed] at hgiven ⊢
    exact h.congr rfl rfl (payloads_runReader ..) hgiven
  | abandoned hk => exact h.congr rfl rfl rfl hgiven
  | closed now =>
    rw [close_eq_of_closed hshut.closed] at hgiven ⊢
    exact h.congr rfl rfl (by funext i; simp [payloads, move]) hgiven

/-- **When the end was returned, all chunks were handed out**, each with its declared size and the
batches of its payload. -/
theorem readOut_reachable (hcreate : create m config method = .ok (p, opened))
    (hw : SoloReachable p opened w) (hnone : (.ok none : Answer) ∈ answers w.log) :
    ReadOut m w := by
  -- the invariants hold up to a close, and from there on nothing changes
  refine hw.of_open (P := fun w => (.ok none : Answer) ∈ answers w.log → ReadOut m w) hcreate
    (readOut_of_open hcreate) ?_ ?_ hnone
  · intro w now _ _ hout hend
    have hmore : Declined (w.state.close.effects.map (.did now)) := .did (close_calls w.state) now
    refine (hout (end_of_declined hmore rfl hend)).congr (close_tasks w.state) rfl ?_
      (handles_of_declined hmore rfl)
    funext i
    simp [payloads, move]
  · intro w w' hw hclosed hout htaken hend
    have hshut := shut_reachable hcreate hw.reachable hclosed
    obtain ⟨more, hlog, hmore⟩ := (htaken.still hshut).log
    exact (hout (end_of_declined hmore hlog hend)).taken hshut htaken

end ResultChunks.Provider.World

namespace ResultChunks.Cursor

open Provider

/-! ## What the manifest says about the rows -/

theorem handles_of_given {log : List Event} {hs : List Handle}
    (h : answers log = given hs ++ [.ok none]) : handles log = hs := by
  rw [handles, h, List.filterMap_append, given, List.filterMap_map]
  exact (List.append_nil _).trans List.filterMap_some

/-- The rows of a chunk are those of its payload. -/
theorem received_length {m : Manifest} {w : World} (hout : w.ReadOut m) {i : Nat} {d : ChunkMeta}
    (hd : m.chunks[i]? = some d) :
    ∃ h dl, (handles w.log)[i]? = some h ∧ w.payloads i = [dl] ∧ h.rows.length = dl.rowCount := by
  have hlt : i < (handles w.log).length := by
    rw [hout.given]
    exact (List.getElem?_eq_some_iff.1 hd).1
  have hi : (handles w.log)[i]? = some (handles w.log)[i] := List.getElem?_eq_getElem hlt
  obtain ⟨dl, hpay, hbatches⟩ := (hout.each hi).batches
  refine ⟨_, dl, hi, hpay, ?_⟩
  rw [Handle.rows, Batch.length_rowsOf, hbatches]
  rfl

theorem length_handle_rows (hs : List Handle) : ((hs.flatMap Handle.rows).length : Int) =
    (hs.map fun h => (h.rows.length : Int)).sum := by
  induction hs with
  | nil => rfl
  | cons h hs ih =>
    rw [List.flatMap_cons, List.length_append, List.map_cons, List.sum_cons, ← ih]
    push_cast
    rfl

/-- Chunks of the declared sizes have the rows of the manifest together. -/
theorem rows_total {m : Manifest} {hs : List Handle} (hlaid : m.Laid) (hlen : hs.length = m.count)
    (heach : ∀ (i : Nat) (h : Handle) (d : ChunkMeta), hs[i]? = some h → m.chunks[i]? = some d →
      (h.rows.length : Int) = d.rowCount) :
    ((hs.flatMap Handle.rows).length : Int) = m.totalRows := by
  have hsizes : hs.map (fun h => (h.rows.length : Int)) = m.chunks.map ChunkMeta.rowCount := by
    refine List.ext_getElem (by simpa [Manifest.count] using hlen) ?_
    intro i hi hi'
    rw [List.getElem_map, List.getElem_map]
    rw [List.length_map] at hi hi'
    exact heach i _ _ (List.getElem?_eq_getElem hi) (List.getElem?_eq_getElem hi')
  rw [length_handle_rows, hsizes]
  exact hlaid.total

/-- **A cursor that was read to its end has read as many rows as the manifest says, chunk by chunk,
exactly if every payload that arrived has as many rows as declared.** Either way it has read all
chunks, in order and each once. -/
theorem rows_as_declared_iff {total : Int} {codec : Codec} {format : Format} {cs : List ChunkMeta}
    {m : Manifest} {config : FetchConfig} {method : Method} {p : Setup} {opened : Move} {w : World}
    {schema : Option Schema} {rows : List RowView} {c : Cursor}
    (hm : Manifest.ofChunks total codec format cs = .ok m)
    (hcreate : create m config method = .ok (p, opened)) (hw : World.SoloReachable p opened w)
    (hdrain : Drains { source := .chunks, schema } (answers w.log) rows c) :
    c.rowsRead = rows.length ∧ rows = (handles w.log).flatMap Handle.rows ∧
      (handles w.log).map Handle.index = List.range m.count ∧
      (((c.rowsRead : Int) = m.totalRows ∧
          ∀ (i : Nat) (h : Handle) (d : ChunkMeta), (handles w.log)[i]? = some h →
            m.chunks[i]? = some d → (h.rows.length : Int) = d.rowCount) ↔
        ∀ (i : Nat) (d : ChunkMeta) (dl : Download), m.chunks[i]? = some d →
          dl ∈ w.payloads i → (dl.rowCount : Int) = d.rowCount) := by
  obtain ⟨-, hlaid⟩ := Manifest.ofChunks_eq_ok_iff.1 hm
  obtain ⟨hs, has, hrows, hread⟩ := hdrain.spec rfl
  have hgiven := handles_of_given has
  have hout : w.ReadOut m := World.readOut_reachable hcreate hw (by rw [has]; simp)
  have hcount : c.rowsRead = rows.length := hread.trans (Nat.zero_add _)
  have hall : rows = (handles w.log).flatMap Handle.rows := by
    rw [hrows, hgiven]
    rfl
  refine ⟨hcount, hall, ?_, ?_, ?_⟩
  · rw [indices_eq_range fun hi => (hout.each hi).index, hout.given]
  · rintro ⟨-, heach⟩ i d dl hd hdl
    obtain ⟨h, dl', hh, hpay, hlen⟩ := received_length hout hd
    rw [hpay] at hdl
    obtain rfl := List.mem_singleton.1 hdl
    rw [← hlen]
    exact heach i h d hh hd
  · intro hsizes
    have heach : ∀ (i : Nat) (h : Handle) (d : ChunkMeta), (handles w.log)[i]? = some h →
        m.chunks[i]? = some d → (h.rows.length : Int) = d.rowCount := by
      intro i h d hh hd
      obtain ⟨h', dl, hh', hpay, hlen⟩ := received_length hout hd
      rw [hh] at hh'
      obtain rfl := Option.some.inj hh'
      rw [hlen]
      exact hsizes i d dl hd (by rw [hpay]; exact List.mem_singleton_self _)
    refine ⟨?_, heach⟩
    rw [hcount, hall]
    exact rows_total hlaid hout.given heach

end ResultChunks.Cursor

namespace ResultChunks.Provider.Sample

/-- Both chunks are read, with a payload of some batches for chunk 0. -/
def readBoth (batches : List Batch) : List Tick :=
  stretch 0 .start 3 ++ stretch 1 .start 3 ++ stretch 1 (.payload (.ok (payload 1))) 1 ++
  stretch 0 (.payload (.ok ⟨batches, 8⟩)) 1 ++ advancing dawn ++ advancing dawn ++ [tick (.call 0)]

/-- What the calls return then. -/
def bothGiven (batches : List Batch) : List Answer :=
  given [⟨0, 0, 2, batches⟩, ⟨1, 2, 2, [⟨[], 2⟩]⟩] ++ [.ok none]

theorem ofChunks_manifest (link : Nat → Option Link) :
    Manifest.ofChunks 4 .none .arrowStream (manifest link).chunks = .ok (manifest link) :=
  Manifest.ofChunks_of_checkChunks rfl .none .arrowStream

end ResultChunks.Provider.Sample

namespace ResultChunks.Cursor

open Provider

/-- Two payloads of two rows each, as declared. -/
theorem rows_as_declared_four :
    ∃ w rows c, World.SoloReachable (Sample.opened Sample.bothLinks).1
        (Sample.opened Sample.bothLinks).2 w ∧
      Drains { source := .chunks, schema := none } (answers w.log) rows c ∧
      (c.rowsRead : Int) = (Sample.manifest Sample.bothLinks).totalRows := by
  obtain ⟨w, hw, hgiven, hfirst, hsecond⟩ : ∃ w,
      World.SoloReachable (Sample.opened Sample.bothLinks).1 (Sample.opened Sample.bothLinks).2 w ∧
        answers w.log = Sample.bothGiven [⟨[], 2⟩] ∧ w.payloads 0 = [⟨[⟨[], 2⟩], 8⟩] ∧
        w.payloads 1 = [Sample.payload 1] :=
    World.exists_soloReachable Sample.dawn (Sample.readBoth [⟨[], 2⟩]) (by decide)
      (by decide +kernel)
  have hdrain : ∃ rows c, Drains { source := .chunks, schema := none }
      (Sample.bothGiven [⟨[], 2⟩]) rows c :=
    ⟨_, _, .row rfl rfl (.row rfl rfl (.row rfl rfl (.row rfl rfl (.ended rfl))))⟩
  obtain ⟨rows, c, hdrain⟩ := hdrain
  rw [← hgiven] at hdrain
  obtain ⟨-, -, -, hiff⟩ := rows_as_declared_iff (Sample.ofChunks_manifest Sample.bothLinks)
    (Sample.create_opened Sample.bothLinks) hw hdrain
  refine ⟨w, rows, c, hw, hdrain, (hiff.2 ?_).1⟩
  intro i d dl hd hdl
  rcases i with _ | _ | i
  · rw [hfirst] at hdl
    obtain rfl := List.mem_singleton.1 hdl
    obtain rfl := Option.some.inj hd
    rfl
  · rw [hsecond] at hdl
    obtain rfl := List.mem_singleton.1 hdl
    obtain rfl := Option.some.inj hd
    rfl
  · cases hd

/-- **A chunk that is a row short goes unnoticed.** The payload of chunk 0 has one row where two are
declared, and the cursor comes to the end of the result after three rows of four. -/
theorem short_chunk_unnoticed :
    ∃ w rows c, World.SoloReachable (Sample.opened Sample.bothLinks).1
        (Sample.opened Sample.bothLinks).2 w ∧
      Drains { source := .chunks, schema := none } (answers w.log) rows c ∧ c.rowsRead = 3 ∧
      (Sample.manifest Sample.bothLinks).totalRows = 4 := by
  obtain ⟨w, hw, hgiven⟩ : ∃ w,
      World.SoloReachable (Sample.opened Sample.bothLinks).1 (Sample.opened Sample.bothLinks).2 w ∧
        answers w.log = Sample.bothGiven [⟨[], 1⟩] :=
    World.exists_soloReachable Sample.dawn (Sample.readBoth [⟨[], 1⟩]) (by decide)
      (by decide +kernel)
  have hdrain : ∃ rows c, Drains { source := .chunks, schema := none }
      (Sample.bothGiven [⟨[], 1⟩]) rows c ∧ c.rowsRead = 3 :=
    ⟨_, _, .row rfl rfl (.row rfl rfl (.row rfl rfl (.ended rfl))), rfl⟩
  obtain ⟨rows, c, hdrain, hread⟩ := hdrain
  exact ⟨w, rows, c, hw, by rw [hgiven]; exact hdrain, hread, rfl⟩

end ResultChunks.Cursor
