import ResultChunks.Proofs.Chunk.Store

/-!
# What operations on a store may change

A store that is kept in place is changed field by field: `setBatches`, `setFailed` and `release` move
the chunk first and write its other fields afterwards. An error between the two would leave half of
an operation behind. `Op.perform` runs the operations in place, where everything written before an
error stays written, and `Op.perform_eq` says that it comes to the same as the operations that return
a new store or an error: an operation is done as a whole, or not at all.

`Op.Does` says once what an operation can do to a store. What a single operation may change, what
outlasts any number of them, and what is left after a release of everything, follow from it.
-/

namespace ResultChunks

namespace Store

/-- An operation on a store. -/
inductive Op where
  | move (index : Int) (next : ChunkStatus)
  | setLink (link : Link)
  | setBatches (index : Int) (batches : List Batch)
  | setFailed (index : Int) (error : FetchError)
  | release (index : Int)
  | releaseAll
deriving DecidableEq, Inhabited

/-- What an operation answers when it is not refused. -/
inductive Reply where
  /-- The status that the chunk had before. -/
  | was (status : ChunkStatus)
  | done
  /-- Whether the link was stored, or whether batches were freed. -/
  | said (yes : Bool)
  /-- The number of chunks whose batches were freed. -/
  | freed (count : Nat)
deriving DecidableEq, Inhabited

/-! ## Changes in place -/

/-- A change of a store in place. What was written before an error stays written. -/
abbrev Edit (α : Type) := ExceptT FetchError (StateM Store) α

namespace Edit

/-- The result of a change, and the store that it leaves. -/
def on {α : Type} (edit : Edit α) (s : Store) : Except FetchError α × Store := edit.run.run s

/-- The descriptor at an index. -/
def find (index : Int) : Edit Descriptor := ExceptT.mk fun s => (s.get index, s)

/-- Write the descriptor at an index. -/
def write (index : Int) (d : Descriptor) : Edit Unit := modify fun s => s.put index d

/-- Move a chunk to a status. The answer is the status that it had. -/
def move (index : Int) (next : ChunkStatus) : Edit ChunkStatus := do
  let d ← find index
  if d.status.leadsTo next then
    write index { d with status := next }
    pure d.status
  else throw (.invalidState (.noTransition index d.status next))

/-- Attach a link to the chunk it names, if that can still use one. -/
def setLink (link : Link) : Edit Bool := do
  let d ← find link.chunkIndex
  if d.status.wantsLink then
    write link.chunkIndex { d with link := some link }
    pure true
  else pure false

/-- Move a chunk to a status, and then change what it found there. -/
def moveThen (index : Int) (next : ChunkStatus) (f : Descriptor → Descriptor) :
    Edit Descriptor := do
  let _ ← move index next
  let d ← find index
  write index (f d)
  pure d

/-- Free the batches of a downloaded chunk. -/
def release (index : Int) : Edit Bool := do
  let d ← find index
  if d.status = .consumed then pure false
  else
    let d ← moveThen index .consumed fun d => { d with batches := none }
    pure d.batches.isSome

/-- Release the first chunks of a store, one after the other, and count those that held batches. -/
def releaseFirst : Nat → Edit Nat
  | 0 => pure 0
  | n + 1 => do
    let freed ← releaseFirst n
    let d ← find n
    write n (releaseOne d)
    pure (freed + if d.batches.isSome then 1 else 0)

/-- Release all chunks. -/
def releaseChunks : Edit Nat := ExceptT.mk fun s => (releaseFirst s.size).on s

end Edit

namespace Op

/-- The chunk that an operation is for. Only `releaseAll` is for all of them. -/
def target : Op → Option Int
  | .move index _ | .setBatches index _ | .setFailed index _ | .release index => some index
  | .setLink link => some link.chunkIndex
  | .releaseAll => none

/-- An operation as a whole. -/
def run (s : Store) : Op → Except FetchError (Reply × Store)
  | .move index next => do
    let d ← s.get index
    return (.was d.status, ← s.move index next)
  | .setLink link => do
    let (stored, s) ← s.setLink link
    return (.said stored, s)
  | .setBatches index batches => return (.done, ← s.setBatches index batches)
  | .setFailed index error => return (.done, ← s.setFailed index error)
  | .release index => do
    let (freed, s) ← s.release index
    return (.said freed, s)
  | .releaseAll => return (.freed s.holding, s.releaseAll)

/-- An operation in place. -/
def edit : Op → Edit Reply
  | .move index next => return .was (← Edit.move index next)
  | .setLink link => return .said (← Edit.setLink link)
  | .setBatches index batches => do
    let _ ← Edit.moveThen index .downloaded fun d => { d with batches := some batches, error := none }
    return .done
  | .setFailed index error => do
    let _ ← Edit.moveThen index .failed fun d => { d with batches := none, error := some error }
    return .done
  | .release index => return .said (← Edit.release index)
  | .releaseAll => return .freed (← Edit.releaseChunks)

/-- What an operation in place answers, and the store that it leaves. -/
def perform (op : Op) (s : Store) : Except FetchError Reply × Store := op.edit.on s

end Op

/-- The store after operations, one after the other. -/
def history (s : Store) (ops : List Op) : Store := ops.foldl (fun s op => (op.perform s).2) s

/-! ## Nothing is done by halves -/

/-- A store after a whole operation: the new one, or the old one if the operation was refused. -/
def outcome {α : Type} (s : Store) : Except FetchError (α × Store) → Except FetchError α × Store
  | .ok (answer, t) => (.ok answer, t)
  | .error e => (.error e, s)

theorem put_put (s : Store) (index : Int) (d d' : Descriptor) :
    (s.put index d).put index d' = s.put index d' := congrArg Store.mk (List.set_set _)

theorem get_put {s : Store} {index : Int} {d : Descriptor} (h : s.get index = .ok d)
    (d' : Descriptor) : (s.put index d').get index = .ok d' := by
  obtain ⟨h0, hd⟩ := of_get_eq_ok h
  rw [get, if_neg (by omega), put, chunk_set_self hd]

namespace Edit

variable {α β : Type} {s : Store} {index : Int} {d : Descriptor} {e : FetchError}

theorem on_bind (edit : Edit α) (f : α → Edit β) (s : Store) : (edit >>= f).on s =
    match edit.on s with
    | (.ok a, t) => (f a).on t
    | (.error e, t) => (.error e, t) := by
  unfold on ExceptT.run StateT.run
  simp only [bind, ExceptT.bind, ExceptT.mk, StateT.bind]
  cases edit s with
  | mk answer t => cases answer <;> rfl

theorem find_on (index : Int) (s : Store) : (find index).on s = (s.get index, s) := rfl

theorem on_bind_ok {edit : Edit α} {t : Store} {a : α} (h : edit.on s = (.ok a, t))
    (f : α → Edit β) : (edit >>= f).on s = (f a).on t := by rw [on_bind, h]

theorem on_bind_error {edit : Edit α} {t : Store} (h : edit.on s = (.error e, t))
    (f : α → Edit β) : (edit >>= f).on s = (.error e, t) := by rw [on_bind, h]

theorem find_bind (h : s.get index = .ok d) (f : Descriptor → Edit β) :
    (find index >>= f).on s = (f d).on s := on_bind_ok (by rw [find_on, h]) f

theorem find_bind_error (h : s.get index = .error e) (f : Descriptor → Edit β) :
    (find index >>= f).on s = (.error e, s) := on_bind_error (by rw [find_on, h]) f

theorem move_on (h : s.get index = .ok d) (next : ChunkStatus) : (move index next).on s =
    if d.status.leadsTo next then (.ok d.status, s.put index { d with status := next })
    else (.error (.invalidState (.noTransition index d.status next)), s) := by
  rw [move, find_bind h]
  split <;> rfl

theorem move_on_error (h : s.get index = .error e) (next : ChunkStatus) :
    (move index next).on s = (.error e, s) := by rw [move, find_bind_error h]

/-- The second half of a change is reached only if the first was allowed, and it finds the chunk
that the first has written. -/
theorem moveThen_on (h : s.get index = .ok d) (next : ChunkStatus) (f : Descriptor → Descriptor) :
    (moveThen index next f).on s =
    if d.status.leadsTo next then
      (.ok { d with status := next }, s.put index (f { d with status := next }))
    else (.error (.invalidState (.noTransition index d.status next)), s) := by
  have hm := move_on h next
  rw [moveThen]
  by_cases hl : d.status.leadsTo next = true
  · rw [if_pos hl] at hm ⊢
    rw [on_bind_ok hm, find_bind (get_put h _)]
    exact congrArg (Prod.mk _) (put_put s index _ _)
  · rw [if_neg hl] at hm ⊢
    exact on_bind_error hm _

theorem moveThen_on_error (h : s.get index = .error e) (next : ChunkStatus)
    (f : Descriptor → Descriptor) : (moveThen index next f).on s = (.error e, s) := by
  rw [moveThen, on_bind_error (move_on_error h next)]

/-- After the first `n` steps of a release of everything, the first `n` chunks are released. -/
theorem releaseFirst_on (s : Store) : ∀ n ≤ s.chunks.length, (releaseFirst n).on s =
    (.ok ((s.chunks.take n).filter fun d => d.batches.isSome).length,
      ⟨(s.chunks.take n).map releaseOne ++ s.chunks.drop n⟩)
  | 0, _ => rfl
  | n + 1, hn => by
    have ih := releaseFirst_on s n (by omega)
    have hdrop : s.chunks.drop n = s.chunks[n] :: s.chunks.drop (n + 1) :=
      List.drop_eq_getElem_cons (by omega)
    have htake : s.chunks.take (n + 1) = s.chunks.take n ++ [s.chunks[n]] :=
      (List.take_append_getElem (by omega)).symm
    have hlen : ((s.chunks.take n).map releaseOne).length = n := by
      rw [List.length_map, List.length_take]; omega
    rw [hdrop] at ih
    have hget : Store.get ⟨(s.chunks.take n).map releaseOne
        ++ s.chunks[n] :: s.chunks.drop (n + 1)⟩ n = .ok s.chunks[n] := by
      apply get_eq_ok
      rw [List.getElem?_append_right (by omega), hlen, Nat.sub_self]
      rfl
    rw [releaseFirst, on_bind_ok ih, find_bind hget, htake]
    refine Prod.ext (congrArg Except.ok ?_) (congrArg Store.mk ?_)
    · rw [List.filter_append, List.length_append, List.filter_cons, List.filter_nil]
      split <;> rfl
    · rw [Int.toNat_natCast, List.set_append_right n _ (by omega), hlen, Nat.sub_self,
        List.map_append, List.append_assoc]
      rfl

theorem releaseChunks_on (s : Store) : releaseChunks.on s = (.ok s.holding, s.releaseAll) := by
  change (releaseFirst s.chunks.length).on s = _
  rw [releaseFirst_on s _ (Nat.le_refl _), List.take_length, List.drop_length, List.append_nil]
  rfl

end Edit

theorem moveWith_of_get {s : Store} {index : Int} {d : Descriptor} (h : s.get index = .ok d)
    (next : ChunkStatus) (f : Descriptor → Descriptor) : s.moveWith index next f =
      if d.status.leadsTo next then .ok (s.put index (f { d with status := next }))
      else .error (.invalidState (.noTransition index d.status next)) := by
  rw [moveWith, h]
  rfl

theorem moveWith_of_error {s : Store} {index : Int} {e : FetchError} (h : s.get index = .error e)
    (next : ChunkStatus) (f : Descriptor → Descriptor) : s.moveWith index next f = .error e := by
  rw [moveWith, h]
  rfl

namespace Edit

/-- What is made of an answer does not matter to the store. -/
theorem answer_outcome {α β : Type} {edit : Edit α} {s : Store}
    {r : Except FetchError (α × Store)} (h : edit.on s = outcome s r) (g : α → β) :
    (do return g (← edit)).on s = outcome s (do let (a, t) ← r; return (g a, t)) := by
  cases r with
  | error e => exact on_bind_error h _
  | ok a => exact on_bind_ok h _

theorem move_outcome (s : Store) (index : Int) (next : ChunkStatus) : (move index next).on s =
    outcome s (do let d ← s.get index; return (d.status, ← s.move index next)) := by
  cases h : s.get index with
  | error e => exact move_on_error h next
  | ok d =>
    rw [move_on h, Store.move, moveWith_of_get h]
    by_cases hl : d.status.leadsTo next = true
    · rw [if_pos hl, if_pos hl]
      rfl
    · rw [if_neg hl, if_neg hl]
      rfl

theorem setLink_outcome (s : Store) (link : Link) :
    (setLink link).on s = outcome s (s.setLink link) := by
  rw [setLink, Store.setLink]
  cases h : s.get link.chunkIndex with
  | error e => exact find_bind_error h _
  | ok d =>
    rw [find_bind h]
    change _ = outcome s (if d.status.wantsLink then _ else _)
    split <;> rfl

/-- A change of status and of what was found with it is done as a whole. -/
theorem moveThen_outcome {α : Type} (s : Store) (index : Int) (next : ChunkStatus)
    (f : Descriptor → Descriptor) (g : Descriptor → α) :
    (do return g (← moveThen index next f)).on s = outcome s (do
      let d ← s.get index
      return (g { d with status := next }, ← s.moveWith index next f)) := by
  cases h : s.get index with
  | error e => exact on_bind_error (moveThen_on_error h next f) _
  | ok d =>
    have hm := moveThen_on h next f
    rw [moveWith_of_get h]
    by_cases hl : d.status.leadsTo next = true
    · rw [if_pos hl] at hm ⊢
      exact on_bind_ok hm _
    · rw [if_neg hl] at hm ⊢
      exact on_bind_error hm _

theorem moveThen_done (s : Store) (index : Int) (next : ChunkStatus)
    (f : Descriptor → Descriptor) : (do let _ ← moveThen index next f; return Reply.done).on s =
      outcome s (do return (Reply.done, ← s.moveWith index next f)) := by
  refine (moveThen_outcome s index next f fun _ => Reply.done).trans ?_
  cases h : s.get index with
  | error e => rw [moveWith_of_error h]; rfl
  | ok d => rfl

theorem release_outcome (s : Store) (index : Int) :
    (release index).on s = outcome s (s.release index) := by
  have hmove := moveThen_outcome s index .consumed (fun d => { d with batches := none })
    fun d => d.batches.isSome
  rw [release, Store.release]
  cases h : s.get index with
  | error e => exact find_bind_error h _
  | ok d =>
    rw [h] at hmove
    rw [find_bind h]
    change _ = outcome s (if d.status = .consumed then _ else _)
    split
    · rfl
    · exact hmove

end Edit

/-- **An operation in place does all of the operation or nothing of it.** -/
theorem Op.perform_eq (op : Op) (s : Store) : op.perform s = outcome s (op.run s) := by
  cases op with
  | move index next =>
    refine (Edit.answer_outcome (Edit.move_outcome s index next) Reply.was).trans ?_
    rw [run]
    cases s.get index with
    | error e => rfl
    | ok d => cases s.move index next <;> rfl
  | setLink link => exact Edit.answer_outcome (Edit.setLink_outcome s link) Reply.said
  | setBatches index batches => exact Edit.moveThen_done s index .downloaded _
  | setFailed index error => exact Edit.moveThen_done s index .failed _
  | release index => exact Edit.answer_outcome (Edit.release_outcome s index) Reply.said
  | releaseAll =>
    rw [perform, edit, Edit.on_bind_ok (Edit.releaseChunks_on s)]
    rfl

theorem Op.perform_of_error {op : Op} {s : Store} {e : FetchError} (h : op.run s = .error e) :
    op.perform s = (.error e, s) := by rw [perform_eq, h]; rfl

theorem Op.perform_of_ok {op : Op} {s t : Store} {r : Reply} (h : op.run s = .ok (r, t)) :
    op.perform s = (.ok r, t) := by rw [perform_eq, h]; rfl

/-! ## What an operation can do -/

end Store

/-- Nothing leads on from such a status. -/
def ChunkStatus.isFinal (st : ChunkStatus) : Prop := st = .consumed ∨ st = .released

namespace Descriptor

/-- What a chunk is in the result: its index, its first row, its rows and its bytes. -/
def extent (d : Descriptor) : Int × Int × Int × Int :=
  (d.index, d.rowOffset, d.rowCount, d.byteCount)

/-- Nothing changed, except that batches may have been freed. -/
def Rests (d d' : Descriptor) : Prop := d' = d ∨ d' = { d with batches := none }

/-- What an operation may do to a chunk. -/
structure StepsTo (d d' : Descriptor) : Prop where
  extent : d'.extent = d.extent
  status : d'.status = d.status ∨ d.status.leadsTo d'.status = true
  /-- A chunk whose life is over is left as it is. -/
  rests : d.status.isFinal → d.Rests d'

namespace Rests

theorem status_eq {d d' : Descriptor} (h : d.Rests d') : d'.status = d.status := by
  rcases h with rfl | rfl <;> rfl

theorem trans {d d' d'' : Descriptor} (h : d.Rests d') (h' : d'.Rests d'') : d.Rests d'' := by
  rcases h with rfl | rfl
  · exact h'
  · rcases h' with rfl | rfl <;> exact Or.inr rfl

end Rests

namespace StepsTo

variable {d d' : Descriptor}

theorem refl (d : Descriptor) : d.StepsTo d := ⟨rfl, Or.inl rfl, fun _ => Or.inl rfl⟩

/-- A chunk that moves is not at the end of its life. -/
theorem of_leadsTo (hex : d'.extent = d.extent) (hst : d.status.leadsTo d'.status = true) :
    d.StepsTo d' := by
  refine ⟨hex, Or.inr hst, ?_⟩
  intro hfinal
  rw [ChunkStatus.leadsTo_eq_false_of_final hfinal] at hst
  exact absurd hst Bool.false_ne_true

/-- A chunk that gets a link is at work. -/
theorem of_wantsLink (h : d.status.wantsLink = true) (l : Link) :
    d.StepsTo { d with link := some l } := by
  refine ⟨rfl, Or.inl rfl, ?_⟩
  rintro (hf | hf) <;> rw [hf] at h <;> exact absurd h Bool.false_ne_true

theorem releaseOne (d : Descriptor) : d.StepsTo (Store.releaseOne d) := by
  by_cases hl : d.status.leadsTo .released = true
  · refine of_leadsTo rfl ?_
    rw [Store.releaseOne, if_pos hl]
    exact hl
  · rw [Store.releaseOne, if_neg hl]
    exact ⟨rfl, Or.inl rfl, fun _ => Or.inr rfl⟩

end StepsTo

end Descriptor

namespace Store

/-- What an operation can make of a store, if it is not refused. -/
inductive Op.Makes (op : Op) (s : Store) : Store → Prop where
  | same : Makes op s s
  | one {index : Int} {d d' : Descriptor} (target : op.target = some index)
      (found : s.get index = .ok d) (step : d.StepsTo d') : Makes op s (s.put index d')
  | all (target : op.target = none) : Makes op s s.releaseAll

/-- A change of status changes the one chunk, and takes a step of its life. -/
theorem moveWith_makes {s t : Store} {index : Int} {next : ChunkStatus}
    {f : Descriptor → Descriptor} (h : s.moveWith index next f = .ok t)
    (hex : ∀ d, (f d).extent = d.extent) (hst : ∀ d, (f d).status = d.status)
    {op : Op} (ht : op.target = some index) : op.Makes s t := by
  cases hg : s.get index with
  | error e => rw [moveWith_of_error hg] at h; cases h
  | ok d =>
    rw [moveWith_of_get hg] at h
    split at h
    · rename_i hl
      obtain rfl := Except.ok.inj h
      refine .one ht hg (.of_leadsTo (hex _) ?_)
      rw [hst]
      exact hl
    · cases h

theorem setLink_makes {s t : Store} {l : Link} {stored : Bool}
    (h : s.setLink l = .ok (stored, t)) : (Op.setLink l).Makes s t := by
  rw [setLink] at h
  cases hg : s.get l.chunkIndex with
  | error e => rw [hg] at h; cases h
  | ok d =>
    rw [hg] at h
    change (if d.status.wantsLink then _ else _) = _ at h
    split at h
    · rename_i hw
      cases h
      exact .one rfl hg (.of_wantsLink hw l)
    · cases h
      exact .same

theorem release_makes {s t : Store} {index : Int} {freed : Bool}
    (h : s.release index = .ok (freed, t)) : (Op.release index).Makes s t := by
  rw [release] at h
  cases hg : s.get index with
  | error e => rw [hg] at h; cases h
  | ok d =>
    rw [hg] at h
    change (if d.status = .consumed then _ else _) = _ at h
    split at h
    · cases h
      exact .same
    · cases hm : s.moveWith index .consumed fun d => { d with batches := none } with
      | error e => rw [hm] at h; cases h
      | ok t' =>
        rw [hm] at h
        cases h
        exact moveWith_makes hm (fun _ => rfl) (fun _ => rfl) rfl

/-- **What an operation can do:** nothing, a step of the one chunk it is for, or a release of
everything. -/
theorem Op.makes_of_run {op : Op} {s t : Store} {r : Reply} (h : op.run s = .ok (r, t)) :
    op.Makes s t := by
  cases op with
  | move index next =>
    rw [run] at h
    cases hg : s.get index with
    | error e => rw [hg] at h; cases h
    | ok d =>
      cases hm : s.move index next with
      | error e => rw [hg, hm] at h; cases h
      | ok t' =>
        rw [hg, hm] at h
        cases h
        exact moveWith_makes hm (fun _ => rfl) (fun _ => rfl) rfl
  | setLink link =>
    rw [run] at h
    cases hl : s.setLink link with
    | error e => rw [hl] at h; cases h
    | ok a => rw [hl] at h; cases h; exact setLink_makes hl
  | setBatches index batches =>
    rw [run] at h
    cases hm : s.setBatches index batches with
    | error e => rw [hm] at h; cases h
    | ok a => rw [hm] at h; cases h; exact moveWith_makes hm (fun _ => rfl) (fun _ => rfl) rfl
  | setFailed index error =>
    rw [run] at h
    cases hm : s.setFailed index error with
    | error e => rw [hm] at h; cases h
    | ok a => rw [hm] at h; cases h; exact moveWith_makes hm (fun _ => rfl) (fun _ => rfl) rfl
  | release index =>
    rw [run] at h
    cases hr : s.release index with
    | error e => rw [hr] at h; cases h
    | ok a => rw [hr] at h; cases h; exact release_makes hr
  | releaseAll => cases h; exact .all rfl

theorem Op.makes (op : Op) (s : Store) : op.Makes s (op.perform s).2 := by
  cases h : op.run s with
  | error e => rw [perform_of_error h]; exact .same
  | ok a => rw [perform_of_ok h]; exact makes_of_run h

namespace Op.Makes

variable {op : Op} {s t : Store}

theorem size_eq (h : op.Makes s t) : t.chunks.length = s.chunks.length := by
  cases h with
  | same => rfl
  | one _ _ _ => exact List.length_set
  | all _ => exact List.length_map _

/-- Every chunk takes at most one step. -/
theorem step (h : op.Makes s t) {j : Nat} {d : Descriptor} (hd : s.chunks[j]? = some d) :
    ∃ d', t.chunks[j]? = some d' ∧ d.StepsTo d' := by
  cases h with
  | same => exact ⟨d, hd, .refl d⟩
  | @one index di d' _ found hstep =>
    obtain ⟨-, hi⟩ := of_get_eq_ok found
    by_cases hj : j = index.toNat
    · subst hj
      obtain rfl := Option.some.inj (hi.symm.trans hd)
      exact ⟨d', chunk_set_self hd d', hstep⟩
    · exact ⟨d, (chunk_set_ne d' hj).trans hd, .refl d⟩
  | all _ =>
    refine ⟨releaseOne d, ?_, .releaseOne d⟩
    rw [Store.releaseAll, List.getElem?_map, hd]
    rfl

/-- An operation for one chunk leaves the others alone. -/
theorem elsewhere (h : op.Makes s t) {index : Int} (ht : op.target = some index) {j : Nat}
    (hj : (j : Int) ≠ index) : t.chunks[j]? = s.chunks[j]? := by
  cases h with
  | same => rfl
  | @one index' _ d' target found _ =>
    obtain rfl := Option.some.inj (target.symm.trans ht)
    have := (of_get_eq_ok found).1
    exact chunk_set_ne d' (by omega)
  | all target => rw [ht] at target; cases target

end Op.Makes

/-! ## One operation after the other -/

/-- What one operation keeps to. -/
structure Op.Respects (op : Op) (s : Store) : Prop where
  /-- A refused operation changes nothing at all. -/
  refused : ∀ {e : FetchError}, (op.perform s).1 = .error e → (op.perform s).2 = s
  /-- An operation for one chunk leaves the others as they are. -/
  elsewhere : ∀ {index : Int}, op.target = some index → ∀ {j : Nat}, (j : Int) ≠ index →
    (op.perform s).2.chunks[j]? = s.chunks[j]?
  /-- No chunk is added. -/
  size : (op.perform s).2.size = s.size
  /-- No chunk is lost, and each one takes at most one step of its life. -/
  step : ∀ {j : Nat} {d : Descriptor}, s.chunks[j]? = some d →
    ∃ d', (op.perform s).2.chunks[j]? = some d' ∧ d.StepsTo d'

theorem Op.respects (op : Op) (s : Store) : op.Respects s := by
  refine ⟨?_, (op.makes s).elsewhere, (op.makes s).size_eq, (op.makes s).step⟩
  intro e he
  cases h : op.run s with
  | error e' => rw [perform_of_error h]
  | ok a => rw [perform_of_ok h] at he; cases he

/-- Chunks whose life is over are left as they are, except that their batches may be freed. -/
structure Rested (s t : Store) : Prop where
  chunk : ∀ {j : Nat} {d : Descriptor}, s.chunks[j]? = some d → d.status.isFinal →
    ∃ d', t.chunks[j]? = some d' ∧ d.Rests d'

theorem extents_of_makes {op : Op} {s t : Store} (h : op.Makes s t) :
    t.chunks.map Descriptor.extent = s.chunks.map Descriptor.extent := by
  apply List.ext_getElem?
  intro j
  rw [List.getElem?_map, List.getElem?_map]
  cases hd : s.chunks[j]? with
  | none =>
    have hlen := List.getElem?_eq_none_iff.1 hd
    rw [List.getElem?_eq_none (by rw [h.size_eq]; exact hlen)]
  | some d =>
    obtain ⟨d', hd', hstep⟩ := h.step hd
    rw [hd']
    exact congrArg some hstep.extent

theorem history_cons (s : Store) (op : Op) (ops : List Op) :
    history s (op :: ops) = history (op.perform s).2 ops := rfl

theorem history_append (s : Store) (earlier later : List Op) :
    history s (earlier ++ later) = history (history s earlier) later := List.foldl_append

theorem extents_history (s : Store) (ops : List Op) :
    (history s ops).chunks.map Descriptor.extent = s.chunks.map Descriptor.extent := by
  induction ops generalizing s with
  | nil => rfl
  | cons op ops ih => rw [history_cons, ih, extents_of_makes (op.makes s)]

theorem rested_history (s : Store) (ops : List Op) : Rested s (history s ops) := by
  induction ops generalizing s with
  | nil => exact ⟨fun {_ d} hd _ => ⟨d, hd, Or.inl rfl⟩⟩
  | cons op ops ih =>
    refine ⟨?_⟩
    intro j d hd hfinal
    obtain ⟨d', hd', hstep⟩ := (op.makes s).step hd
    have hrest := hstep.rests hfinal
    obtain ⟨d'', hd'', hrest'⟩ := (ih _).chunk hd' (by rw [hrest.status_eq]; exact hfinal)
    exact ⟨d'', hd'', hrest.trans hrest'⟩

/-! ## A release of everything -/

/-- What is left when everything was released. -/
structure Released (s : Store) : Prop where
  final : ∀ d ∈ s.chunks, d.status.isFinal
  freed : ∀ d ∈ s.chunks, d.batches = none

theorem perform_releaseAll (s : Store) :
    Op.releaseAll.perform s = (.ok (.freed s.holding), s.releaseAll) := Op.perform_of_ok rfl

theorem releaseOne_isFinal (d : Descriptor) : (releaseOne d).status.isFinal := by
  rw [releaseOne]
  cases h : d.status <;> first | exact Or.inl rfl | exact Or.inr rfl

theorem released_releaseAll (s : Store) : Released s.releaseAll := by
  constructor <;> intro d hd <;> obtain ⟨d', -, rfl⟩ := List.mem_map.1 hd
  · exact releaseOne_isFinal d'
  · rfl

/-- There is nothing left to release. -/
theorem Released.releaseAll_eq {s : Store} (h : Released s) : s.releaseAll = s := by
  refine congrArg Store.mk ((List.map_congr_left ?_).trans (List.map_id _))
  intro d hd
  have hb := h.freed d hd
  have hl := ChunkStatus.leadsTo_eq_false_of_final (t := .released) (h.final d hd)
  rw [releaseOne, hl, ← hb]
  rfl

theorem Released.holding_eq {s : Store} (h : Released s) : s.holding = 0 := by
  refine List.length_eq_zero_iff.2 (List.filter_eq_nil_iff.2 ?_)
  intro d hd
  rw [h.freed d hd]
  exact Bool.false_ne_true

/-- **Operations are atomic and local and keep to the life of a chunk.** Whatever was done before to
the store of a manifest, the next operation is done as a whole or not at all, changes no chunk but
its own, and takes each chunk at most one step of its life on. Whatever is done later, the chunks are
those of the manifest, and a chunk whose life is over stays as it is, except that its batches may be
freed. A release of everything tells how many chunks held batches, leaves every chunk at the end of
its life without batches, and a second one finds nothing to do. -/
theorem operations_keep_lifecycle (m : Manifest) (earlier : List Op) (op : Op) (later : List Op) :
    let s := history (.ofManifest m) earlier
    op.Respects s
    ∧ (history s later).chunks.map Descriptor.extent
        = m.chunks.map (fun c => (c.index, c.rowOffset, c.rowCount, c.byteCount))
    ∧ Rested s (history s later)
    ∧ (Op.releaseAll.perform s).1 = .ok (.freed s.holding)
    ∧ Released (Op.releaseAll.perform s).2
    ∧ Op.releaseAll.perform (Op.releaseAll.perform s).2
        = (.ok (.freed 0), (Op.releaseAll.perform s).2) := by
  intro s
  have hleft := released_releaseAll s
  refine ⟨op.respects s, ?_, rested_history s later, ?_⟩
  · rw [← history_append, extents_history]
    exact List.map_map
  · rw [perform_releaseAll s]
    refine ⟨rfl, hleft, ?_⟩
    rw [perform_releaseAll, hleft.holding_eq, hleft.releaseAll_eq]

end Store

end ResultChunks
