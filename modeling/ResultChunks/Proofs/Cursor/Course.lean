import ResultChunks.Proofs.Cursor.Rows

/-!
# Calls that fail or are given up

A call that asks its provider for a chunk has come to the end of its batch and of the batches that
waited, and none of the chunks that it was given meanwhile had a row. So all that the call did to the
cursor is to drop batches without rows (`waiting_spec`). A failure leaves the cursor as it waited, and
so does giving the call up: the rows that are ahead are the same as before (`Unmoved`).

A `Course` is any use of a cursor: calls that come back, calls that are given up, and closes. However
these are mixed, the rows that were yielded and those ahead are the rows of the chunks that came.
-/

namespace ResultChunks

open Provider (Answer Handle given)

namespace Cursor

/-- Follow a call through answers that are not enough for it. -/
def await : Cursor × Progress → List Answer → Option Cursor
  | (_, .done _), _ => none
  | (c, .needsChunk), [] => some c
  | (c, .needsChunk), a :: as => await (c.receive a) as

/-- The cursor while a call waits for one more answer. This is what is left of a call that is given
up. -/
def waiting (c : Cursor) (as : List Answer) : Option Cursor := await c.next as

/-- Any use of a cursor: what is seen after the calls that come back, the cursor in the end, and the
answers that are left. -/
inductive Course : Cursor → List Answer → List Sight → Cursor → List Answer → Prop where
  | stay (c : Cursor) (as : List Answer) : Course c as [] c as
  | call {c c' d : Cursor} {as rest left : List Answer} {result : Except FetchError Bool}
      {sights : List Sight} : c.nextRow as = some (c', result, rest) →
      Course c' rest sights d left →
      Course c as (⟨result, c'.currentRow, c'.rowsRead⟩ :: sights) d left
  | giveUp {c c' d : Cursor} {as rest left : List Answer} {sights : List Sight} :
      c.waiting as = some c' → Course c' rest sights d left → Course c (as ++ rest) sights d left
  | close {c d : Cursor} {as left : List Answer} {sights : List Sight} :
      Course c.close as sights d left → Course c as sights d left

/-- The chunks among some answers. -/
def chunksIn (as : List Answer) : List Handle :=
  as.filterMap fun
    | .ok chunk => chunk
    | .error _ => none

/-- The row that a call found. -/
def Sight.found (s : Sight) : List RowView :=
  match s.result with
  | .ok true => s.row.toList
  | _ => []

/-- The rows that calls found, in order. -/
def found (sights : List Sight) : List RowView := sights.flatMap Sight.found

/-- What a call of an open cursor came to, if it had read some rows and others were to come: it took
some answers, and it is open still. -/
structure Turn (read : Nat) (rows : List Handle → List RowView) (taken : List Answer) (c' : Cursor)
    (s : Sight) : Prop where
  opened : c'.closed = false
  count : c'.rowsRead = read + s.found.length
  row : s.result = .ok true → s.row.isSome = true
  /-- The rows to come are the one that it found and those that are to come now. -/
  rows : ∀ hs, rows (chunksIn taken ++ hs) = s.found ++ c'.left hs

/-- A step of a call of an open cursor. -/
inductive Leads (read : Nat) (rows : List Handle → List RowView) : Cursor × Progress → Prop where
  | row {c : Cursor} {r : RowView} (hopen : c.closed = false) (hread : c.rowsRead = read + 1)
      (hrow : c.currentRow = some r) (hrows : ∀ hs, rows hs = r :: c.left hs) :
      Leads read rows (c, .done (.ok true))
  | ended {c : Cursor} (hopen : c.closed = false) (hread : c.rowsRead = read)
      (hrows : ∀ hs, rows hs = c.left hs) : Leads read rows (c, .done (.ok false))
  | failed {c : Cursor} (e : FetchError) (hopen : c.closed = false) (hread : c.rowsRead = read)
      (hrows : ∀ hs, rows hs = c.left hs) : Leads read rows (c, .done (.error e))
  /-- It needs a chunk, and nothing is ahead of it. -/
  | asks {c : Cursor} (hopen : c.closed = false) (hread : c.rowsRead = read)
      (hsource : c.source = .chunks) (hahead : c.ahead = []) (hrows : ∀ hs, rows hs = c.left hs) :
      Leads read rows (c, .needsChunk)

/-- A call that did not come back with a row or the end has not moved the cursor. -/
structure Unmoved (c c' : Cursor) (hs : List Handle) : Prop where
  row : c'.currentRow = c.currentRow
  read : c'.rowsRead = c.rowsRead
  schema : c'.schema = c.schema
  /-- The chunks that it was given have no rows. -/
  empty : hs.flatMap Handle.rows = []
  /-- Whatever comes later, all is as if these chunks came later too. -/
  later : ∀ n as, c'.watch n as = c.watch n (given hs ++ as)

variable {c c' d : Cursor} {as rest left : List Answer} {result : Except FetchError Bool}
  {sights : List Sight}

/-! ## A call that waits -/

/-- A source gives a chunk later, or is done at once. -/
theorem pull_cases (c : Cursor) :
    (c.source = .chunks ∧ c.pull = ({ c with pending := [] }, .needsChunk)) ∨
      ∃ c' b, c.pull = (c', .done (.ok b)) := by
  by_cases hchunks : c.source = .chunks
  · exact Or.inl ⟨hchunks, pull_chunks hchunks⟩
  · refine Or.inr ?_
    rw [pull]
    split
    · exact absurd ‹_› hchunks
    · exact ⟨_, _, rfl⟩
    · split
      · exact ⟨_, _, rfl⟩
      · exact ⟨_, _, rfl⟩

/-- Behind its batch, a call asks for a chunk, or is done without an error. -/
theorem proceed_asks_or_done (c : Cursor) :
    (c.source = .chunks ∧ c.proceed = ({ c with pending := [] }, .needsChunk) ∧
        Batch.rowsOf c.pending = []) ∨
      ∃ c' b, c.proceed = (c', .done (.ok b)) := by
  rcases proceed_cases c with ⟨b, bs, hgo, -⟩ | ⟨hgo, hnone⟩
  · exact Or.inr ⟨_, true, hgo⟩
  · rw [hgo]
    exact (pull_cases c).imp (fun h => ⟨h.1, h.2, hnone⟩) id

/-- A call fails only with what it is answered. -/
theorem proceed_ne_error (c c' : Cursor) (e : FetchError) : c.proceed ≠ (c', .done (.error e)) := by
  intro herror
  rcases proceed_asks_or_done c with ⟨-, hgo, -⟩ | ⟨d, b, hgo⟩
  · rw [hgo] at herror
    cases herror
  · rw [hgo] at herror
    cases herror

theorem await_done (c : Cursor) (result : Except FetchError Bool) (as : List Answer) :
    await (c, .done result) as = none := by
  cases as <;> rfl

/-- **A call that waits was given chunks without rows**, and goes on from there. -/
theorem await_proceed (h : await c.proceed as = some c') :
    c.source = .chunks ∧ c' = { c with pending := [] } ∧ Batch.rowsOf c.pending = [] ∧
      ∃ hs, as = given hs ∧ hs.flatMap Handle.rows = [] ∧
        ∀ later, follow c.proceed (as ++ later) = follow (c', .needsChunk) later := by
  -- on the answers, each of which is a chunk that becomes what waits
  induction as generalizing c with
  | nil =>
    rcases proceed_asks_or_done c with ⟨hsource, hgo, hnone⟩ | ⟨d, b, hgo⟩
    · rw [hgo] at h
      obtain rfl := Option.some.inj h
      exact ⟨hsource, rfl, hnone, [], rfl, rfl, fun later => by rw [hgo]; rfl⟩
    · rw [hgo, await_done] at h
      cases h
  | cons a as ih =>
    rcases proceed_asks_or_done c with ⟨hsource, hgo, hnone⟩ | ⟨d, b, hgo⟩
    · rw [hgo, await] at h
      cases a with
      | error e => rw [receive, await_done] at h; cases h
      | ok chunk =>
        cases chunk with
        | none => rw [receive, await_done] at h; cases h
        | some g =>
          -- the call went on past this chunk, so the chunk has no row
          obtain ⟨-, hc', hrows, hs, has, hempty, hlater⟩ :=
            ih (c := { c with pending := [] ++ g.batches }) h
          refine ⟨hsource, hc', hnone, g :: hs, by rw [has]; rfl, ?_, ?_⟩
          · have hg : g.rows = [] := hrows
            rw [List.flatMap_cons, hg, hempty]
            rfl
          · intro later
            rw [hgo, List.cons_append, follow]
            exact hlater later
    · rw [hgo, await_done] at h
      cases h

/-- A cursor at the end of its batches asks for a chunk. -/
theorem next_of_behind (hopen : c.closed = false) (hin : c.inBatch = false)
    (hsource : c.source = .chunks) (hpending : c.pending = []) : c.next = (c, .needsChunk) := by
  have hsame : { c with pending := [] } = c := by rw [← hpending]
  rw [next, if_neg (by simp [hopen]), if_neg (by simp [hin])]
  rw [proceed, enterPending, hpending, skipEmpty, List.dropWhile_nil]
  dsimp only
  rw [pull_chunks hsource, hsame]

/-- A cursor that has no row ahead is behind its batch. -/
theorem inBatch_of_ahead_nil (h : c.ahead = []) : c.inBatch = false := by
  rw [inBatch]
  cases hb : c.batch with
  | none => rfl
  | some b =>
    rw [ahead, hb] at h
    have hdrop : b.allRows.drop (c.row + 1) = [] := (List.append_eq_nil_iff.1 h).1
    rw [List.drop_eq_nil_iff, Batch.length_allRows] at hdrop
    simpa using hdrop

/-- **What is left of a call that waits**: the cursor as it was but for batches without rows, behind
which the next call goes on. -/
theorem waiting_spec (h : c.waiting as = some c') :
    c.closed = false ∧ c.source = .chunks ∧ c' = { c with pending := [] } ∧ c.ahead = [] ∧
      c'.next = (c', .needsChunk) ∧
      ∃ hs, as = given hs ∧ hs.flatMap Handle.rows = [] ∧
        ∀ later, c.nextRow (as ++ later) = c'.nextRow later := by
  rw [waiting] at h
  by_cases hclosed : c.closed = true
  · rw [next, if_pos hclosed, await_done] at h
    cases h
  · have hopen : c.closed = false := by simpa using hclosed
    rcases next_cases hopen with ⟨b, hb, hgo, hahead⟩ | ⟨hgo, hahead⟩
    · rw [hgo, await_done] at h
      cases h
    · rw [hgo] at h
      obtain ⟨hsource, rfl, hnone, hs, has, hempty, hlater⟩ := await_proceed h
      have hbehind : c.ahead = [] := hahead.trans hnone
      have hnext := next_of_behind (c := { c with pending := [] }) hopen
        (inBatch_of_ahead_nil (c := c) hbehind) hsource rfl
      refine ⟨hopen, hsource, rfl, hbehind, hnext, hs, has, hempty, ?_⟩
      intro later
      rw [nextRow, nextRow, hgo, hlater, hnext]

/-- **A call that is given up has not moved the cursor.** -/
theorem unmoved_of_waiting (h : c.waiting as = some c') :
    ∃ hs, as = given hs ∧ Unmoved c c' hs := by
  obtain ⟨-, -, rfl, -, -, hs, has, hempty, hlater⟩ := waiting_spec h
  refine ⟨hs, has, rfl, rfl, rfl, hempty, ?_⟩
  intro n later
  cases n with
  | zero => rfl
  | succ n => rw [watch, watch, ← has, hlater]

/-! ## A call that fails -/

/-- A call fails with the answer that it waited for. -/
theorem await_of_follow {x : Cursor × Progress} {e : FetchError}
    (h : follow x as = some (c', .error e, rest)) :
    x = (c', .done (.error e)) ∨
      ∃ before, as = before ++ .error e :: rest ∧ await x before = some c' := by
  induction as generalizing x with
  | nil =>
    obtain ⟨c, result | -⟩ := x
    · cases h
      exact Or.inl rfl
    · cases h
  | cons a as ih =>
    obtain ⟨c, result | -⟩ := x
    · cases h
      exact Or.inl rfl
    · rw [follow] at h
      rcases ih h with hdone | ⟨before, has, hwait⟩
      · -- only a failure that is received ends a call with an error
        cases a with
        | error e' =>
          rw [receive] at hdone
          cases hdone
          rw [receive, follow_done] at h
          cases h
          exact Or.inr ⟨[], rfl, rfl⟩
        | ok chunk =>
          cases chunk with
          | none => cases hdone
          | some g => exact absurd hdone (proceed_ne_error _ _ _)
      · exact Or.inr ⟨a :: before, by rw [has]; rfl, hwait⟩

/-- **A call of an open cursor that fails leaves it as it waited.** -/
theorem waiting_of_error {e : FetchError} (hopen : c.closed = false)
    (h : c.nextRow as = some (c', .error e, rest)) :
    ∃ before, as = before ++ .error e :: rest ∧ c.waiting before = some c' := by
  rcases await_of_follow h with hdone | hwait
  · rcases next_cases hopen with ⟨b, hb, hgo, -⟩ | ⟨hgo, -⟩
    · rw [hgo] at hdone
      cases hdone
    · rw [hgo] at hdone
      exact absurd hdone (proceed_ne_error _ _ _)
  · exact hwait

/-- A failure that is returned again and again is what every call comes to, and moves nothing. -/
theorem watch_error {e : FetchError} (h : c.waiting as = some c') (n : Nat) :
    c'.watch n (List.replicate n (.error e)) =
      some (List.replicate n ⟨.error e, c.currentRow, c.rowsRead⟩) := by
  obtain ⟨-, -, rfl, -, hnext, -⟩ := waiting_spec h
  induction n with
  | zero => rfl
  | succ n ih =>
    have hcall : Cursor.nextRow { c with pending := [] } (List.replicate (n + 1) (.error e)) =
        some ({ c with pending := [] }, .error e, List.replicate n (.error e)) := by
      rw [nextRow, hnext, List.replicate_succ, follow, receive, follow_done]
    rw [watch, hcall]
    dsimp only
    rw [ih]
    rfl

/-! ## What a call takes, finds and leaves -/

theorem chunksIn_append (as bs : List Answer) : chunksIn (as ++ bs) = chunksIn as ++ chunksIn bs :=
  List.filterMap_append

theorem chunksIn_given (hs : List Handle) : chunksIn (given hs) = hs := by
  rw [chunksIn, given, List.filterMap_map]
  exact List.filterMap_some

theorem left_chunks (hsource : c.source = .chunks) (hs : List Handle) :
    c.left hs = c.ahead ++ hs.flatMap Handle.rows := by
  rw [left, hsource]
  rfl

/-- A source that is asked behind all batches has the rows to come. -/
theorem leads_of_pull (hopen : c.closed = false) (hahead : c.ahead = [])
    (hnone : Batch.rowsOf c.pending = []) : Leads c.rowsRead c.left c.pull := by
  have hleft : ∀ hs, c.left hs = c.source.rows hs := fun hs => by rw [left, hahead]; rfl
  rw [pull]
  split
  · rename_i hsource
    have hsame : Cursor.ahead { c with pending := [] } = c.ahead := by
      rw [ahead, ahead, hnone]
      rfl
    refine .asks hopen rfl hsource (hsame.trans hahead) fun hs => ?_
    rw [left, left, hsame]
  · exact .ended hopen rfl hleft
  · rename_i r hsource
    have hrows : ∀ hs, c.left hs = Batch.rowsOf r.batches := fun hs => by
      rw [hleft, hsource]
      rfl
    split
    · rename_i hskip
      refine .ended hopen rfl fun hs => ?_
      rw [hrows, ← rowsOf_skipEmpty, hskip]
      rfl
    · rename_i b bs hskip
      refine .row (r := ⟨b, 0⟩) hopen rfl rfl fun hs => ?_
      rw [hrows, rowsOf_of_skipEmpty hskip c]
      simp [left, ahead, enter, Source.rows, Batch.rowsOf]

/-- Behind its batch, a cursor goes to the first row that waits, or to its source. -/
theorem leads_of_proceed (hopen : c.closed = false) (hahead : c.ahead = Batch.rowsOf c.pending) :
    Leads c.rowsRead c.left c.proceed := by
  rcases proceed_cases c with ⟨b, bs, hgo, hrows⟩ | ⟨hgo, hnone⟩
  · rw [hgo]
    refine .row (r := ⟨b, 0⟩) hopen rfl rfl fun hs => ?_
    rw [left, hahead, hrows]
    rfl
  · rw [hgo]
    exact leads_of_pull hopen (hahead.trans hnone) hnone

/-- **A step of a call finds the first of the rows to come**, or that there is none, or asks for a
chunk. -/
theorem leads_of_next (hopen : c.closed = false) : Leads c.rowsRead c.left c.next := by
  rcases next_cases hopen with ⟨b, hb, hgo, hahead⟩ | ⟨hgo, hahead⟩
  · rw [hgo]
    refine .row (r := ⟨b, c.row + 1⟩) hopen rfl (by rw [currentRow, hb]; rfl) fun hs => ?_
    rw [left, hahead]
    rfl
  · rw [hgo]
    exact leads_of_proceed hopen hahead

section

variable {read : Nat} {rows : List Handle → List RowView}

/-- An answer leads on, and its chunk is the first of those that were to come. -/
theorem Leads.receive (h : Leads read rows (c, .needsChunk)) (a : Answer) :
    Leads read (fun hs => rows (chunksIn [a] ++ hs)) (c.receive a) := by
  cases h with
  | asks hopen hread hsource hahead hrows =>
    cases a with
    | error e => exact .failed e hopen hread hrows
    | ok chunk =>
      cases chunk with
      | none =>
        refine .ended hopen hread fun hs => ?_
        refine (hrows hs).trans ?_
        rw [left, hahead]
        rfl
      | some g =>
        obtain ⟨hbatch, hnone⟩ := List.append_eq_nil_iff.1 hahead
        have hwaits : Cursor.ahead { c with pending := c.pending ++ g.batches } =
            Batch.rowsOf (c.pending ++ g.batches) := by
          rw [ahead, hbatch]
          rfl
        have hrest : (fun hs => rows (chunksIn [.ok (some g)] ++ hs)) =
            Cursor.left { c with pending := c.pending ++ g.batches } := by
          funext hs
          change rows (g :: hs) = _
          have hwaiting : Batch.rowsOf (c.pending ++ g.batches) = g.rows := by
            rw [Batch.rowsOf, List.flatMap_append, ← Batch.rowsOf, hnone]
            rfl
          rw [hrows, left_chunks hsource, hahead,
            left_chunks (c := { c with pending := c.pending ++ g.batches }) hsource, hwaits,
            hwaiting]
          rfl
        rw [hrest, ← hread]
        exact leads_of_proceed (c := { c with pending := c.pending ++ g.batches }) hopen hwaits

theorem Leads.done (h : Leads read rows (c, .done result)) :
    Turn read rows [] c ⟨result, c.currentRow, c.rowsRead⟩ := by
  cases h with
  | row hopen hread hrow hrows =>
    refine ⟨hopen, ?_, fun _ => by rw [hrow]; rfl, ?_⟩
    · rw [Sight.found, hrow, hread]
      rfl
    · rw [Sight.found, hrow]
      exact hrows
  | ended hopen hread hrows => exact ⟨hopen, hread, fun hfound => (by cases hfound), hrows⟩
  | failed e hopen hread hrows => exact ⟨hopen, hread, fun hfound => (by cases hfound), hrows⟩

/-- **So does a call, whatever it is answered.** -/
theorem Leads.turn {x : Cursor × Progress} (h : Leads read rows x)
    (hcall : follow x as = some (c', result, rest)) :
    ∃ taken, as = taken ++ rest ∧
      Turn read rows taken c' ⟨result, c'.currentRow, c'.rowsRead⟩ := by
  -- on the answers, each of which leads on
  induction as generalizing x rows with
  | nil =>
    obtain ⟨d, result | -⟩ := x
    · cases hcall
      exact ⟨[], rfl, h.done⟩
    · cases hcall
  | cons a as ih =>
    obtain ⟨d, result | -⟩ := x
    · cases hcall
      exact ⟨[], rfl, h.done⟩
    · obtain ⟨taken, has, hturn⟩ := ih (h.receive a) hcall
      refine ⟨a :: taken, by rw [has]; rfl, hturn.opened, hturn.count, hturn.row, fun hs => ?_⟩
      have hrows := hturn.rows hs
      rw [← List.append_assoc, ← chunksIn_append] at hrows
      exact hrows

end

/-- **What a call of an open cursor comes to.** -/
theorem turn_of_nextRow (hopen : c.closed = false) (hcall : c.nextRow as = some (c', result, rest)) :
    ∃ taken, as = taken ++ rest ∧
      Turn c.rowsRead c.left taken c' ⟨result, c'.currentRow, c'.rowsRead⟩ :=
  (leads_of_next hopen).turn hcall

/-! ## Any use of a cursor -/

/-- A call of a closed cursor fails, and changes nothing. -/
theorem nextRow_closed (hclosed : c.closed = true) (as : List Answer) :
    c.nextRow as = some (c, .error .closed, as) := by
  rw [nextRow, next, if_pos hclosed, follow_done]

theorem close_closed (c : Cursor) : c.close.closed = true := by
  rw [close]
  split
  · assumption
  · rfl

/-- A closed cursor stays as it is, and all its calls fail. -/
theorem Course.of_closed (h : Course c as sights d left) (hclosed : c.closed = true) :
    d = c ∧ ∀ s ∈ sights, s.result = .error .closed := by
  induction h with
  | stay c as => exact ⟨rfl, by simp⟩
  | call hcall _ ih =>
    rw [nextRow_closed hclosed] at hcall
    cases hcall
    obtain ⟨hstill, hall⟩ := ih hclosed
    refine ⟨hstill, ?_⟩
    intro s hs
    rcases List.mem_cons.1 hs with rfl | hs
    · rfl
    · exact hall s hs
  | giveUp hwait _ _ =>
    obtain ⟨hopen, -⟩ := waiting_spec hwait
    rw [hclosed] at hopen
    cases hopen
  | close _ ih =>
    rw [Cursor.close, if_pos hclosed] at ih
    exact ih hclosed

theorem found_cons (s : Sight) (sights : List Sight) : found (s :: sights) = s.found ++ found sights :=
  List.flatMap_cons

theorem found_of_closed (h : ∀ s ∈ sights, s.result = .error .closed) : found sights = [] := by
  rw [found, List.flatMap_eq_nil_iff]
  intro s hs
  rw [Sight.found, h s hs]

/-- Chunks that a call was given before it was given up had no rows. -/
theorem left_of_waiting (h : c.waiting as = some c') (hs : List Handle) :
    c.left (chunksIn as ++ hs) = c'.left hs := by
  obtain ⟨-, hsource, rfl, hahead, -, gs, rfl, hempty, -⟩ := waiting_spec h
  obtain ⟨hbatch, -⟩ := List.append_eq_nil_iff.1 hahead
  rw [chunksIn_given, left_chunks hsource, List.flatMap_append, hempty, hahead,
    left_chunks (c := { c with pending := [] }) hsource, ahead, hbatch]
  rfl

theorem read_of_waiting (h : c.waiting as = some c') : c'.rowsRead = c.rowsRead := by
  obtain ⟨-, -, rfl, -⟩ := waiting_spec h
  rfl

/-- **However a cursor is used, no row is lost, and none is found twice.** As long as it is open, the
rows that were found and those that are to come are the rows that were to come before, with those of
the chunks that came. -/
theorem Course.rows (h : Course c as sights d left) (hopen : d.closed = false) :
    ∃ taken, as = taken ++ left ∧ d.rowsRead = c.rowsRead + (found sights).length ∧
      ∀ hs, c.left (chunksIn taken ++ hs) = found sights ++ d.left hs := by
  induction h with
  | stay c as => exact ⟨[], rfl, rfl, fun _ => rfl⟩
  | @call c c' d as rest left result sights hcall hlater ih =>
    -- nothing opens a cursor again, so it was open all the time
    have hbefore : c.closed = false := by
      by_contra hclosed
      rw [Bool.not_eq_false] at hclosed
      rw [((Course.call hcall hlater).of_closed hclosed).1, hclosed] at hopen
      cases hopen
    obtain ⟨taken, rfl, hturn⟩ := turn_of_nextRow hbefore hcall
    obtain ⟨more, rfl, hcount, hrows⟩ := ih hopen
    refine ⟨taken ++ more, (List.append_assoc ..).symm, ?_, fun hs => ?_⟩
    · have hread := hturn.count
      rw [hcount, found_cons, List.length_append]
      omega
    · rw [chunksIn_append, List.append_assoc, hturn.rows, hrows, found_cons, List.append_assoc]
  | @giveUp c c' d as rest left sights hwait hlater ih =>
    obtain ⟨more, rfl, hcount, hrows⟩ := ih hopen
    refine ⟨as ++ more, (List.append_assoc ..).symm, ?_, fun hs => ?_⟩
    · rw [hcount, read_of_waiting hwait]
    · rw [chunksIn_append, List.append_assoc, left_of_waiting hwait, hrows]
  | close hlater =>
    rw [(hlater.of_closed (close_closed _)).1, close_closed] at hopen
    cases hopen

/-- **Only rows that are to come are found**, closed or not. -/
theorem Course.found_prefix (h : Course c as sights d left) :
    found sights <+: c.left (chunksIn as) := by
  by_cases hclosed : c.closed = true
  · rw [found_of_closed (h.of_closed hclosed).2]
    exact List.nil_prefix
  · induction h with
    | stay c as => exact List.nil_prefix
    | @call c c' d as rest left sights result hcall hlater ih =>
      obtain ⟨taken, rfl, hturn⟩ := turn_of_nextRow (by simpa using hclosed) hcall
      rw [chunksIn_append, hturn.rows, found_cons]
      exact (List.prefix_append_right_inj _).2 (ih (by simp [hturn.opened]))
    | @giveUp c c' d as rest left sights hwait hlater ih =>
      rw [chunksIn_append, left_of_waiting hwait]
      obtain ⟨hopen, -, rfl, -⟩ := waiting_spec hwait
      exact ih (by simp [hopen])
    | close hlater =>
      rw [found_of_closed (hlater.of_closed (close_closed _)).2]
      exact List.nil_prefix

/-- Each call that says so has found a row. -/
theorem Course.row_of_found (h : Course c as sights d left) :
    ∀ s ∈ sights, s.result = .ok true → s.found ≠ [] := by
  induction h with
  | stay c as => simp
  | @call c c' d as rest left sights result hcall _ ih =>
    intro s hs hfound
    rcases List.mem_cons.1 hs with rfl | hs
    · by_cases hclosed : c.closed = true
      · rw [nextRow_closed hclosed] at hcall
        cases hcall
        cases hfound
      · obtain ⟨taken, -, hturn⟩ := turn_of_nextRow (by simpa using hclosed) hcall
        obtain ⟨r, hr⟩ := Option.isSome_iff_exists.1 (hturn.row hfound)
        rw [Sight.found, hfound, hr]
        exact List.cons_ne_nil r []
    · exact ih s hs hfound
  | giveUp _ _ ih => exact ih
  | close _ ih => exact ih

end Cursor

end ResultChunks
