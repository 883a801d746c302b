import ResultChunks.Proofs.Chunk.Store
import ResultChunks.Proofs.Provider.World

/-!
# What the legs of a reader do

A call of `advance` touches the store in one place: it consumes the chunk that was handed out last,
if that is still downloaded. Otherwise it claims chunks, and it notes what it hands out. The lemmas
here say all that a leg of a reader can do while the provider is open.
-/

namespace ResultChunks.Provider

variable {p : Setup} {s : State} {i : Nat} {d : Descriptor}

namespace State

/-- The state after a chunk was consumed. -/
def consumed (s : State) (i : Nat) (d : Descriptor) : State :=
  { s with
    store := ⟨s.store.chunks.set i { d with status := .consumed, batches := none }⟩
    held := s.held - 1 }

/-- The chunk handed out last is consumed, if it is there and downloaded. -/
inductive Consumes (s : State) : State → Prop where
  /-- There is nothing to consume. -/
  | nothing (h : ∀ {i : Nat} {d : Descriptor}, s.current = i → s.store.chunks[i]? = some d →
      d.status ≠ .downloaded) : Consumes s s
  | one {i : Nat} {d : Descriptor} (hi : s.current = i) (hd : s.store.chunks[i]? = some d)
      (hs : d.status = .downloaded) : Consumes s (s.consumed i d)

/-- The descriptor after a consumption: the one before, or that of the chunk handed out last, which
is consumed now. -/
theorem Consumes.chunk {s' : State} (h : s.Consumes s') {j : Nat} {d' : Descriptor}
    (hd' : s'.store.chunks[j]? = some d') :
    ∃ d, s.store.chunks[j]? = some d ∧ (d' = d ∨ (j : Int) = s.current
      ∧ d.status = .downloaded ∧ d'.status = .consumed
      ∧ d'.rowOffset = d.rowOffset ∧ d'.rowCount = d.rowCount) := by
  cases h with
  | nothing _ => exact ⟨d', hd', Or.inl rfl⟩
  | @one i d hi hd hs =>
      rcases Store.chunk_of_set hd' with ⟨rfl, rfl⟩ | ⟨-, hold⟩
      · exact ⟨d, hd, Or.inr ⟨hi.symm, hs, rfl, rfl, rfl⟩⟩
      · exact ⟨d', hold, Or.inl rfl⟩

theorem Consumes.size {s' : State} (h : s.Consumes s') :
    s'.store.chunks.length = s.store.chunks.length := by
  cases h with
  | nothing _ => rfl
  | one _ _ _ => exact List.length_set

theorem Consumes.surfaced {s' : State} (h : s.Consumes s') : s'.surfaced = s.surfaced := by
  cases h with
  | nothing _ => rfl
  | one _ _ _ => rfl

theorem Consumes.current {s' : State} (h : s.Consumes s') : s'.current = s.current := by
  cases h with
  | nothing _ => rfl
  | one _ _ _ => rfl

theorem releaseCurrent_eq (hsize : s.store.chunks.length = p.count) :
    ∃ m, s.releaseCurrent p = .ok m ∧ s.Consumes m.state := by
  rw [releaseCurrent]
  split
  · rename_i hcur
    rw [Bool.and_eq_true, decide_eq_true_eq, decide_eq_true_eq] at hcur
    obtain ⟨d, hd⟩ := Store.exists_chunk (s := s.store) (i := s.current.toNat) (by omega)
    have hi : s.current = s.current.toNat := (Int.toNat_of_nonneg hcur.1).symm
    rw [releaseChunk, Store.get_eq_ok hd]
    by_cases hs : d.status = .downloaded
    · change ∃ m, (if d.status ≠ .downloaded then _ else _) = _ ∧ _
      rw [if_neg (by simp [hs]), Store.release_downloaded hd hs]
      exact ⟨_, rfl, .one hi hd hs⟩
    · change ∃ m, (if d.status ≠ .downloaded then _ else _) = _ ∧ _
      rw [if_pos hs]
      refine ⟨_, rfl, .nothing ?_⟩
      intro j dj hj hdj
      obtain rfl : s.current.toNat = j := by omega
      rw [hd] at hdj
      obtain rfl := Option.some.inj hdj
      exact hs
  · rename_i hcur
    refine ⟨_, rfl, .nothing ?_⟩
    intro j dj hj hdj
    have hlt := Store.lt_of_chunk hdj
    rw [Bool.and_eq_true, decide_eq_true_eq, decide_eq_true_eq] at hcur
    omega

/-- What the first leg of a call comes to: the failure that was seen before, the end, or a chunk to
look for. -/
inductive Moves (p : Setup) (s : State) : State × List Effect × Progress → Prop where
  | again {e : FetchError} (hs : s.surfaced = some e) : Moves p s (s, [], .done (.error e))
  | past {s' : State} (effects : List Effect) (hs : s.surfaced = none) (hr : s.Consumes s')
      (hn : p.count ≤ (s.current + 1).toNat) :
      Moves p s ({ s' with current := p.count }, effects, .done (.ok none))
  | ahead {s' : State} (effects : List Effect) (hs : s.surfaced = none) (hr : s.Consumes s')
      (hn : (s.current + 1).toNat < p.count) :
      Moves p s (s', effects, .waiting (s.current + 1).toNat)

/-- **What the first leg of a call can do.** -/
theorem moveOn_moves (hc : s.closed = false) (hsize : s.store.chunks.length = p.count) :
    Moves p s (s.moveOn p) := by
  rw [moveOn, if_neg (by simp [hc])]
  cases hs : s.surfaced with
  | some e => exact .again hs
  | none =>
      obtain ⟨m, hm, hr⟩ := releaseCurrent_eq hsize
      rw [hm]
      dsimp only
      split
      · rename_i hn; exact .past _ hs hr hn
      · rename_i hn; exact .ahead _ hs hr (by omega)

theorem moveOn_again {e : FetchError} (hc : s.closed = false) (hs : s.surfaced = some e) :
    s.moveOn p = (s, [], .done (.error e)) := by
  rw [moveOn, if_neg (by simp [hc]), hs]

/-- The chunk as it is handed out. -/
def handleOf (i : Nat) (d : Descriptor) : Handle :=
  ⟨i, d.rowOffset, d.rowCount, d.batches.getD []⟩

/-- The failure as it is handed out. -/
def failureOf (i : Nat) (d : Descriptor) : FetchError :=
  d.error.getD (.invalidState (.failed i))

/-- What a look for a chunk comes to. -/
inductive Looks (s : State) (i : Nat) (d : Descriptor) :
    State × List Effect × Progress → Prop where
  | found (effects : List Effect) (hs : d.status = .downloaded) :
      Looks s i d ({ s with current := i }, effects, .done (.ok (some (handleOf i d))))
  | failed (hs : d.status = .failed) :
      Looks s i d ({ s with surfaced := some (failureOf i d) }, [],
        .done (.error (failureOf i d)))
  | gone (hs : d.status = .consumed ∨ d.status = .released) :
      Looks s i d (s, [], .done (.error (.invalidState (.unavailable i))))
  | wait (hs : d.status.wantsLink = true) : Looks s i d (s, [], .waiting i)

/-- **What a look can do.** -/
theorem look_looks (hc : s.closed = false) (hd : s.store.chunks[i]? = some d) (waited : Duration) :
    Looks s i d (s.look waited i) := by
  rw [look, if_neg (by simp [hc]), Store.get_eq_ok hd]
  dsimp only
  cases hs : d.status with
  | pending | linkResolved | downloading => exact .wait (by rw [hs]; rfl)
  | downloaded => exact .found _ hs
  | consumed | released => exact .gone (by rw [hs]; simp)
  | failed => exact .failed hs

/-- **What every claim keeps, a fill keeps.** -/
theorem fill_keeps {P : State → Prop}
    (hstep : ∀ {s : State}, s.mayClaim p = true → P s → P (s.claim p).state) (h : P s) :
    P (s.fill p).state := by
  fun_induction State.fill p s with
  | case1 s hm ih => exact ih (hstep hm h)
  | case2 s hm => exact h

/-! ## What a reader leaves alone -/

theorem releaseCurrent_frame {m : Move} (h : s.releaseCurrent p = .ok m) :
    ∃ store held, m.state = { s with store, held } := by
  rw [releaseCurrent] at h
  split at h
  · rw [releaseChunk] at h
    cases hg : s.store.get s.current.toNat with
    | error e => rw [hg] at h; exact nomatch h
    | ok d =>
        rw [hg] at h
        change (if d.status ≠ .downloaded then _ else _) = _ at h
        split at h
        · obtain rfl := Except.ok.inj h; exact ⟨_, _, rfl⟩
        · cases hr : s.store.release s.current.toNat with
          | error e => rw [hr] at h; exact nomatch h
          | ok r => rw [hr] at h; obtain rfl := Except.ok.inj h; exact ⟨_, _, rfl⟩
  · obtain rfl := Except.ok.inj h; exact ⟨_, _, rfl⟩

theorem moveOn_frame (p : Setup) (s : State) :
    ∃ store held current, (s.moveOn p).1 = { s with store, held, current } := by
  rw [moveOn]
  split
  · exact ⟨_, _, _, rfl⟩
  · split
    · exact ⟨_, _, _, rfl⟩
    · split
      · exact ⟨_, _, _, rfl⟩
      · rename_i m hm
        obtain ⟨store, held, hm⟩ := releaseCurrent_frame hm
        dsimp only
        split
        · exact ⟨store, held, _, by rw [hm]⟩
        · exact ⟨store, held, _, hm⟩

theorem look_frame (s : State) (waited : Duration) (i : Nat) :
    ∃ current surfaced, (s.look waited i).1 = { s with current, surfaced } := by
  rw [look]
  split
  · exact ⟨_, _, rfl⟩
  · split
    · exact ⟨_, _, rfl⟩
    · dsimp only
      split <;> exact ⟨_, _, rfl⟩

theorem fill_frame (p : Setup) (s : State) :
    ∃ tasks held peak inFlight, (s.fill p).state = { s with tasks, held, peak, inFlight } := by
  refine fill_keeps (P := fun t => ∃ tasks held peak inFlight,
    t = { s with tasks, held, peak, inFlight }) ?_ ⟨_, _, _, _, rfl⟩
  rintro t - ⟨tasks, held, peak, inFlight, rfl⟩
  exact ⟨_, _, _, _, rfl⟩

/-! ## No leg opens a provider again -/

theorem moveOn_closed (p : Setup) (s : State) : (s.moveOn p).1.closed = s.closed := by
  obtain ⟨store, held, current, h⟩ := moveOn_frame p s
  rw [h]

theorem look_closed (s : State) (waited : Duration) (i : Nat) :
    (s.look waited i).1.closed = s.closed := by
  obtain ⟨current, surfaced, h⟩ := look_frame s waited i
  rw [h]

theorem fill_closed (p : Setup) (s : State) : (s.fill p).state.closed = s.closed := by
  obtain ⟨tasks, held, peak, inFlight, h⟩ := fill_frame p s
  rw [h]

theorem complete_closed (s : State) (now : Moment) (i : Nat) (r : TaskResult) :
    (s.complete now i r).state.closed = s.closed := by
  rw [complete]
  dsimp only
  split
  · rfl
  · rw [Move.state_andThen]
    split
    · rw [storeChunk]
      dsimp only
      split <;> rfl
    · rfl

theorem close_closed (s : State) : s.close.state.closed = true := by
  rw [close]
  split
  · rename_i h; exact h
  · rfl

end State

/-- A world that was just closed is not open. -/
theorem World.not_open_of_close (w : World) (now : Moment) :
    (w.move now w.state.close.state w.state.close.effects).state.closed ≠ false := by
  simp [move, State.close_closed]

/-! ## Legs that only tell -/

/-- An effect that tells the world something and asks nothing of it. -/
@[simp] def Effect.tells : Effect → Bool
  | .report _ | .wake | .note _ => true
  | .spawn _ | .askLinks _ _ | .download _ _ | .sleep _ _ => false

@[simp] theorem tells_notes (entries : List Log.Entry) :
    (notes entries).all Effect.tells = true := by simp [notes]

namespace State

theorem releaseCurrent_tells {m : Move} (h : s.releaseCurrent p = .ok m) :
    m.effects.all Effect.tells = true := by
  rw [releaseCurrent] at h
  split at h
  · rw [releaseChunk] at h
    cases hg : s.store.get s.current.toNat with
    | error e => rw [hg] at h; cases h
    | ok d =>
        rw [hg] at h
        change (if d.status ≠ .downloaded then _ else _) = _ at h
        split at h
        · obtain rfl := Except.ok.inj h; rfl
        · cases hr : s.store.release s.current.toNat with
          | error e => rw [hr] at h; cases h
          | ok r => rw [hr] at h; obtain rfl := Except.ok.inj h; simp [note]
  · obtain rfl := Except.ok.inj h; rfl

theorem moveOn_tells (p : Setup) (s : State) : (s.moveOn p).2.1.all Effect.tells = true := by
  rw [moveOn]
  split
  · rfl
  · split
    · rfl
    · split
      · rfl
      · rename_i m hm
        dsimp only
        split
        · simp [releaseCurrent_tells hm, note]
        · exact releaseCurrent_tells hm

theorem look_tells (s : State) (waited : Duration) (i : Nat) :
    (s.look waited i).2.1.all Effect.tells = true := by
  rw [look]
  split
  · rfl
  · split
    · rfl
    · dsimp only
      split <;> rfl

theorem close_tells (s : State) : s.close.effects.all Effect.tells = true := by
  rw [close]
  split <;> rfl

/-- The last leg of a task tells of its end. -/
theorem complete_tells (s : State) (now : Moment) (i : Nat) (r : TaskResult) :
    (s.complete now i r).effects.all Effect.tells = true := by
  have fails : ∀ (s : State) (e : FetchError) (n : Nat),
      (s.failChunk now i e n).effects.all Effect.tells = true := by
    intro s e n
    rw [failChunk]
    dsimp only
    split <;> simp [note]
  rw [complete]
  dsimp only
  split
  · rfl
  · rw [Move.effects_andThen]
    split
    · rw [storeChunk]
      dsimp only
      split
      · simp
      · simp [fails, note]
    · simp [fails]

end State

end ResultChunks.Provider
