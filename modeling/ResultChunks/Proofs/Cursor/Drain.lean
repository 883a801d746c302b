import ResultChunks.Cursor.Basic
import ResultChunks.Proofs.Provider.World

/-!
# Reading a cursor to its end

A cursor over chunks waits for its provider now and then. `nextRow` is a call of `next` together with
the answers that the provider gives meanwhile, and `Drains` calls it until there are no more rows.

What carries all of this is the list of rows that are ahead of a cursor: the rest of its batch, and
the batches that wait. A call takes the first row off that list, and each chunk that the call asks for
adds its rows to the end. So a cursor that is read to its end has read the rows of all chunks it was
given, in order and each once, and nothing looks at what the manifest says about their number.
-/

namespace ResultChunks

/-- The rows of a batch, in order. -/
def Batch.allRows (b : Batch) : List RowView := (List.range b.rows).map fun i => ⟨b, i⟩

/-- The rows of batches, in order. -/
def Batch.rowsOf (bs : List Batch) : List RowView := bs.flatMap Batch.allRows

/-- The rows of a chunk as the consumer gets it. -/
def Provider.Handle.rows (h : Handle) : List RowView := Batch.rowsOf h.batches

/-- The answers with which a provider gives chunks. -/
def Provider.given (hs : List Handle) : List Answer := hs.map fun h => .ok (some h)

namespace Batch

theorem length_allRows (b : Batch) : b.allRows.length = b.rows := by simp [allRows]

theorem drop_allRows {b : Batch} {k : Nat} (h : k < b.rows) :
    b.allRows.drop k = ⟨b, k⟩ :: b.allRows.drop (k + 1) := by
  rw [List.drop_eq_getElem_cons (by rw [length_allRows]; exact h)]
  simp [allRows]

theorem length_rowsOf (bs : List Batch) : (rowsOf bs).length = totalRows bs := by
  have key : ∀ (bs : List Batch) (n : Nat),
      (bs.map Batch.rows).foldl (· + ·) n = n + (rowsOf bs).length := by
    intro bs
    induction bs with
    | nil =>
      intro n
      rfl
    | cons b bs ih =>
      intro n
      have hcons : rowsOf (b :: bs) = b.allRows ++ rowsOf bs := List.flatMap_cons
      rw [List.map_cons, List.foldl_cons, ih, hcons, List.length_append, length_allRows]
      omega
  rw [totalRows, key, Nat.zero_add]

end Batch

open Provider (Answer Handle given)

namespace Cursor

/-- Follow a call through the answers of the provider. It comes with the cursor after it, its result,
and the answers that are left; there is none while the call still waits. -/
def follow : Cursor × Progress → List Answer → Option (Cursor × Except FetchError Bool × List Answer)
  | (c, .done result), as => some (c, result, as)
  | (_, .needsChunk), [] => none
  | (c, .needsChunk), a :: as => follow (c.receive a) as

/-- Move to the next row while the provider gives answers. -/
def nextRow (c : Cursor) (as : List Answer) : Option (Cursor × Except FetchError Bool × List Answer) :=
  follow c.next as

/-- A cursor is read row by row until there are no more. All calls succeed, and together they take
all the answers. -/
inductive Drains : Cursor → List Answer → List RowView → Cursor → Prop where
  | ended {c c' : Cursor} {as : List Answer} : c.nextRow as = some (c', .ok false, []) →
      Drains c as [] c'
  | row {c c' c'' : Cursor} {as rest : List Answer} {r : RowView} {rows : List RowView} :
      c.nextRow as = some (c', .ok true, rest) → c'.currentRow = some r →
      Drains c' rest rows c'' → Drains c as (r :: rows) c''

/-- The rows behind the current one that the cursor holds. -/
def ahead (c : Cursor) : List RowView :=
  ((c.batch.map fun b => b.allRows.drop (c.row + 1)).getD []) ++ Batch.rowsOf c.pending

/-- What a call comes to when some rows are ahead: the next row, the end, or an error. The chunks
that it was given go behind the rows ahead. -/
inductive Comes (c : Cursor) (rows : List RowView) (as : List Answer) :
    Cursor → Except FetchError Bool → List Answer → Prop where
  | row {c' : Cursor} {rest : List Answer} (hs : List Handle) (r : RowView)
      (has : as = given hs ++ rest) (hrow : c'.currentRow = some r)
      (hahead : rows ++ hs.flatMap Handle.rows = r :: c'.ahead)
      (hread : c'.rowsRead = c.rowsRead + 1) (hsource : c'.source = .chunks) :
      Comes c rows as c' (.ok true) rest
  | ended {c' : Cursor} {rest : List Answer} (hs : List Handle)
      (has : as = given hs ++ .ok none :: rest) (hahead : rows ++ hs.flatMap Handle.rows = [])
      (hread : c'.rowsRead = c.rowsRead) :
      Comes c rows as c' (.ok false) rest
  | failed (c' : Cursor) (e : FetchError) (rest : List Answer) :
      Comes c rows as c' (.error e) rest

/-! ## One call -/

variable {c c' : Cursor} {as rest : List Answer} {result : Except FetchError Bool}

theorem follow_done (c : Cursor) (result : Except FetchError Bool) (as : List Answer) :
    follow (c, .done result) as = some (c, result, as) := by
  cases as <;> rfl

theorem rowsOf_skipEmpty (bs : List Batch) : Batch.rowsOf (skipEmpty bs) = Batch.rowsOf bs := by
  induction bs with
  | nil => rfl
  | cons b bs ih =>
    by_cases hb : b.rows = 0
    · have hnone : b.allRows = [] := by simp [Batch.allRows, hb]
      rw [skipEmpty, List.dropWhile_cons_of_pos (by simp [hb]), ← skipEmpty, ih, Batch.rowsOf,
        Batch.rowsOf, List.flatMap_cons, hnone, List.nil_append]
    · rw [skipEmpty, List.dropWhile_cons_of_neg (by simp [hb])]

theorem rows_of_skipEmpty {bs bs' : List Batch} {b : Batch} (h : skipEmpty bs = b :: bs') :
    0 < b.rows := by
  have hfirst := List.head?_dropWhile_not (fun b : Batch => b.rows == 0) bs
  rw [← skipEmpty, h] at hfirst
  simp at hfirst
  omega

/-- A cursor that enters a batch is at the first of the rows that waited. -/
theorem rowsOf_of_skipEmpty {bs bs' : List Batch} {b : Batch} (h : skipEmpty bs = b :: bs')
    (c : Cursor) : Batch.rowsOf bs = ⟨b, 0⟩ :: (c.enter b bs').ahead := by
  have hfirst := Batch.drop_allRows (rows_of_skipEmpty h)
  rw [List.drop_zero] at hfirst
  rw [← rowsOf_skipEmpty bs, h, Batch.rowsOf, List.flatMap_cons, hfirst]
  rfl

/-- Behind its batch, a cursor enters the first batch with rows that waits, or turns to its source. -/
theorem proceed_cases (c : Cursor) :
    (∃ b bs, c.proceed = (c.enter b bs, .done (.ok true)) ∧
        Batch.rowsOf c.pending = ⟨b, 0⟩ :: (c.enter b bs).ahead) ∨
      (c.proceed = c.pull ∧ Batch.rowsOf c.pending = []) := by
  cases hskip : skipEmpty c.pending with
  | nil =>
    refine Or.inr ⟨by simp [proceed, enterPending, hskip], ?_⟩
    rw [← rowsOf_skipEmpty, hskip]
    rfl
  | cons b bs =>
    exact Or.inl ⟨b, bs, by simp [proceed, enterPending, hskip], rowsOf_of_skipEmpty hskip c⟩

/-- Behind its batch, a cursor over chunks enters the first row that waits, or asks for a chunk. -/
theorem proceed_chunks (h : c.source = .chunks) :
    (∃ c' r, c.proceed = (c', .done (.ok true)) ∧ c'.currentRow = some r ∧
        Batch.rowsOf c.pending = r :: c'.ahead ∧ c'.rowsRead = c.rowsRead + 1 ∧
        c'.source = .chunks) ∨
      (c.proceed = ({ c with pending := [] }, .needsChunk) ∧ Batch.rowsOf c.pending = []) := by
  rcases proceed_cases c with ⟨b, bs, hgo, hrows⟩ | ⟨hgo, hnone⟩
  · exact Or.inl ⟨c.enter b bs, ⟨b, 0⟩, hgo, rfl, hrows, rfl, h⟩
  · exact Or.inr ⟨by rw [hgo, pull, h], hnone⟩

/-- **From behind its batch, a call goes through the chunks it is given** until one has rows. -/
theorem comes_of_proceed (h : c.source = .chunks)
    (hcall : follow c.proceed as = some (c', result, rest)) :
    Comes c (Batch.rowsOf c.pending) as c' result rest := by
  -- on the answers, since a call takes one for each chunk that it asks for
  induction as generalizing c with
  | nil =>
    rcases proceed_chunks h with ⟨d, r, hgo, hrow, hahead, hread, hsource⟩ | ⟨hgo, -⟩
    · rw [hgo, follow_done] at hcall
      cases hcall
      exact .row [] r rfl hrow (by simpa using hahead) hread hsource
    · rw [hgo] at hcall
      cases hcall
  | cons a as ih =>
    rcases proceed_chunks h with ⟨d, r, hgo, hrow, hahead, hread, hsource⟩ | ⟨hgo, hnone⟩
    · rw [hgo, follow_done] at hcall
      cases hcall
      exact .row [] r rfl hrow (by simpa using hahead) hread hsource
    · rw [hgo, follow] at hcall
      cases a with
      | error e =>
        rw [receive, follow_done] at hcall
        cases hcall
        exact .failed _ e _
      | ok chunk =>
        cases chunk with
        | none =>
          rw [receive, follow_done] at hcall
          cases hcall
          exact .ended [] rfl (by simpa using hnone) rfl
        | some g =>
          -- the rows of the chunk are now the ones that wait
          have hthen := ih (c := { c with pending := [] ++ g.batches }) h hcall
          rw [hnone]
          cases hthen with
          | row hs r has hrow hahead hread hsource =>
            exact .row (g :: hs) r (by rw [has]; rfl) hrow hahead hread hsource
          | ended hs has hahead hread => exact .ended (g :: hs) (by rw [has]; rfl) hahead hread
          | failed => exact .failed _ _ _

/-- Behind its batch, a cursor has only the batches that wait ahead. -/
theorem ahead_of_not_inBatch (h : c.inBatch = false) : c.ahead = Batch.rowsOf c.pending := by
  rw [inBatch] at h
  rw [ahead]
  cases hb : c.batch with
  | none => rfl
  | some b =>
    rw [hb] at h
    have hlen : b.allRows.length ≤ c.row + 1 := by
      rw [Batch.length_allRows]
      simpa using h
    rw [Option.map_some, Option.getD_some, List.drop_eq_nil_of_le hlen]
    rfl

/-- A call goes on in the batch, or behind it. -/
theorem next_cases (hopen : c.closed = false) :
    (∃ b, c.batch = some b ∧
        c.next = ({ c with row := c.row + 1, rowsRead := c.rowsRead + 1 }, .done (.ok true)) ∧
        c.ahead = ⟨b, c.row + 1⟩ :: { c with row := c.row + 1, rowsRead := c.rowsRead + 1 }.ahead) ∨
      (c.next = c.proceed ∧ c.ahead = Batch.rowsOf c.pending) := by
  rw [next, if_neg (by simp [hopen])]
  split
  · rename_i hin
    obtain ⟨b, hb, hlt⟩ := (Option.any_eq_true _ _).1 hin
    have hrest := Batch.drop_allRows (of_decide_eq_true hlt)
    exact Or.inl ⟨b, hb, rfl, by simp [ahead, hb, hrest]⟩
  · rename_i hout
    exact Or.inr ⟨rfl, ahead_of_not_inBatch (by simpa using hout)⟩

/-- **What a call of `next` comes to.** -/
theorem comes_of_nextRow (h : c.source = .chunks) (hcall : c.nextRow as = some (c', result, rest)) :
    Comes c c.ahead as c' result rest := by
  rw [nextRow] at hcall
  cases hclosed : c.closed with
  | true =>
    rw [next, if_pos hclosed, follow_done] at hcall
    cases hcall
    exact .failed _ .closed as
  | false =>
    rcases next_cases hclosed with ⟨b, hb, hgo, hahead⟩ | ⟨hgo, hpassed⟩
    · rw [hgo, follow_done] at hcall
      cases hcall
      exact .row [] ⟨b, c.row + 1⟩ rfl (by simp [currentRow, hb]) (by simpa using hahead) rfl h
    · rw [hgo] at hcall
      rw [hpassed]
      exact comes_of_proceed h hcall

/-! ## All calls -/

/-- **A cursor that is read to its end has read the rows of all chunks it was given**, after the rows
it held, in order and each once. The last answer was that there are no more chunks. -/
theorem Drains.spec {c'' : Cursor} {rows : List RowView} (hd : Drains c as rows c'')
    (h : c.source = .chunks) :
    ∃ hs, as = given hs ++ [.ok none] ∧ rows = c.ahead ++ hs.flatMap Handle.rows ∧
      c''.rowsRead = c.rowsRead + rows.length := by
  induction hd with
  | ended hcall =>
    cases comes_of_nextRow h hcall with
    | ended hs has hahead hread => exact ⟨hs, has, hahead.symm, hread⟩
  | row hcall hrow _ ih =>
    cases comes_of_nextRow h hcall with
    | row hs r has hcur hahead hread hsource =>
      -- the rows ahead after this call are the ones that the later calls begin with
      obtain ⟨later, hlater, hrows, hcount⟩ := ih hsource
      obtain rfl := Option.some.inj (hcur.symm.trans hrow)
      refine ⟨hs ++ later, ?_, ?_, ?_⟩
      · rw [has, hlater, given, given, given, List.map_append, List.append_assoc]
      · rw [hrows, List.flatMap_append, ← List.append_assoc, hahead]
        rfl
      · rw [hcount, hread, List.length_cons]
        omega

end Cursor

end ResultChunks
