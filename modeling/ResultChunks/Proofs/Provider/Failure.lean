import ResultChunks.Proofs.Provider.Delivery

/-!
# Failures

A failure is handed out in its chunk's place. Chunks are claimed in order, so when a chunk fails, all
chunks before it are claimed already, and their tasks go on; only the claims stop. Whatever the order
in which tasks end, the failure that a reader gets is that of the first chunk that failed, after all
chunks before it, and every later call returns it again.
-/

namespace ResultChunks.Provider

/-- It is a leg of a call of this reader. -/
def Action.isLegOf (r : Nat) : Action → Bool
  | .call k | .fill k | .look k => k == r
  | _ => false

variable {p : Setup} {s : State} {w w' : World} {m : Manifest} {config : FetchConfig}
  {method : Method} {opened : Move}

/-! ## A failure stops the claims for good -/

theorem complete_halted (h : s.halted = true) (now : Moment) (i : Nat) (r : TaskResult) :
    (s.complete now i r).state.halted = true := by
  rw [State.complete]
  dsimp only
  split
  · exact h
  · rw [Move.state_andThen]
    split
    · rw [State.storeChunk]
      dsimp only
      split
      · exact h
      · rfl
    · rfl

theorem fill_halted (h : s.halted = true) : s.fill p = ⟨s, []⟩ := by
  rw [State.fill, if_neg (by simp [State.mayClaim, h])]

namespace World

/-- **Once a chunk failed, no step claims another one.** -/
theorem Taken.halted (ht : Taken p w w') (h : w.state.halted = true) :
    w'.state.halted = true ∧ w'.state.next = w.state.next := by
  cases ht with
  | heard now hp hl =>
      have hq := State.hear_quiet hl
      exact ⟨hq.halted.trans h, hq.next⟩
  | @ran i pt now addition hp =>
      refine ⟨?_, leg_next w.state now addition i pt⟩
      by_cases hpt : ∃ r, pt = .finish r
      · obtain ⟨r, rfl⟩ := hpt
        exact complete_halted h now i r
      · exact (State.leg_quiet p w.state now addition i (not_exists.1 hpt)).halted.trans h
  | called now hk =>
      obtain ⟨store, held, current, hframe⟩ := State.moveOn_frame p w.state
      rw [state_runReader, hframe]
      exact ⟨h, rfl⟩
  | filled now hk =>
      rw [state_runReader, State.claims, fill_halted h]
      exact ⟨h, rfl⟩
  | @looked k n now hk =>
      obtain ⟨current, surfaced, hframe⟩ := State.look_frame w.state now.elapsed n
      rw [state_runReader, hframe]
      exact ⟨h, rfl⟩
  | abandoned hk => exact ⟨h, rfl⟩
  | closed now =>
      refine ⟨?_, congrArg List.length (close_tasks w.state)⟩
      change w.state.close.state.halted = true
      rw [State.close]
      split <;> exact h

theorem next_of_halted (h : w.state.halted = true)
    (hsteps : Relation.ReflTransGen (Step p) w w') : w'.state.next = w.state.next := by
  suffices hboth : w'.state.halted = true ∧ w'.state.next = w.state.next from hboth.2
  induction hsteps with
  | refl => exact ⟨h, rfl⟩
  | tail _ hlast ih =>
      obtain ⟨hhalted, hnext⟩ := hlast.taken.halted ih.1
      exact ⟨hhalted, hnext.trans ih.2⟩

/-! ## The failure that a reader gets -/

/-- A reader got the failure of chunk `k`. -/
structure Fails (p : Setup) (w : World) (k : Nat) (e : FetchError) : Prop where
  /-- All chunks before it were handed out, in order. -/
  given : (handles w.log).map Handle.index = List.range k
  /-- It failed, and its error is the one that is returned. -/
  failed : ∃ d, w.state.store.chunks[k]? = some d ∧ d.status = .failed ∧ d.error = some e
  /-- No chunk before it failed. -/
  first : ∀ (j : Nat) (d : Descriptor), j < k → w.state.store.chunks[j]? = some d →
    d.status ≠ .failed
  /-- Before the failure the calls returned the chunks, after it only the same failure. -/
  answers : ∃ r, answers w.log =
    (handles w.log).map (fun h => .ok (some h)) ++ List.replicate (r + 1) (.error e)
  /-- The next call returns it at once. -/
  again : w.state.advance p = (w.state, [], .done (.error e))
  noNext : w.state.hasNext p = false

theorem Fails.length {k : Nat} {e : FetchError} (h : Fails p w k e) :
    (handles w.log).length = k := by
  have hlen := congrArg List.length h.given
  rw [List.length_map, List.length_range] at hlen
  exact hlen

theorem surfaced_of_error (h : Reads p w) {e : FetchError}
    (he : (.error e : Answer) ∈ answers w.log) : w.state.surfaced = some e := by
  obtain ⟨rest, hrest, hstage⟩ := h.stage
  rw [hrest] at he
  rcases List.mem_append.1 he with hin | hin
  · obtain ⟨g, -, hg⟩ := List.mem_map.1 hin
    exact nomatch hg
  · cases hstage with
    | reading _ _ => exact nomatch hin
    | atEnd _ _ _ _ => exact nomatch List.eq_of_mem_replicate hin
    | failed hs _ _ _ _ =>
        obtain rfl := Except.error.inj (List.eq_of_mem_replicate hin)
        exact hs

theorem fails_of_surfaced (h : Reads p w) (hopen : w.state.closed = false) {e : FetchError}
    (hs : w.state.surfaced = some e) : Fails p w (handles w.log).length e := by
  obtain ⟨rest, hrest, hstage⟩ := h.stage
  cases hstage with
  | reading hno _ => rw [hs] at hno; exact nomatch hno
  | atEnd hno _ _ _ => rw [hs] at hno; exact nomatch hno
  | @failed r e' d hs' hc hd hf he =>
      rw [hs] at hs'
      obtain rfl := Option.some.inj hs'
      refine ⟨indices_eq_range fun hg => ?_, ⟨d, hd, hf, he⟩, ?_, ⟨r, hrest⟩, ?_, ?_⟩
      · obtain ⟨d', -, hh⟩ := h.handed hg
        exact hh.index
      · intro j dj hj hdj hfailed
        exact absurd (h.given_le_of_failed hdj hfailed) (Nat.not_le.2 hj)
      · rw [State.advance_eq, State.moveOn_again hopen hs]
      · rw [State.hasNext, hs]
        simp

/-- The failure that was seen is that of the first chunk that failed. -/
theorem fails_of_first (h : Reads p w) (hopen : w.state.closed = false) {k : Nat} {d : Descriptor}
    {e e' : FetchError} (hd : w.state.store.chunks[k]? = some d) (hf : d.status = .failed)
    (he : d.error = some e) (hfirst : ∀ (j : Nat) (d' : Descriptor), j < k →
      w.state.store.chunks[j]? = some d' → d'.status ≠ .failed)
    (hs : w.state.surfaced = some e') : Fails p w k e := by
  have hfails := fails_of_surfaced h hopen hs
  obtain ⟨d', hd', hf', he'⟩ := hfails.failed
  have hk : (handles w.log).length = k := by
    refine Nat.le_antisymm (h.given_le_of_failed hd hf) (Nat.le_of_not_lt fun hlt => ?_)
    exact hfirst _ d' hlt hd' hf'
  rw [hk, hd] at hd'
  obtain rfl := Option.some.inj hd'
  rw [he] at he'
  obtain rfl := Option.some.inj he'
  rw [hk] at hfails
  exact hfails

/-- Until then the calls returned chunks only. -/
theorem answers_of_failed (h : Reads p w) {k : Nat} {d : Descriptor}
    (hd : w.state.store.chunks[k]? = some d) (hf : d.status = .failed)
    (hs : w.state.surfaced = none) :
    answers w.log = (handles w.log).map (fun h => .ok (some h)) := by
  obtain ⟨rest, hrest, hstage⟩ := h.stage
  cases hstage with
  | reading _ _ => exact hrest.trans (List.append_nil _)
  | atEnd _ _ _ hall => have hd' := hall hd; rw [hf] at hd'; exact nomatch hd'
  | failed hs' _ _ _ _ => rw [hs] at hs'; exact nomatch hs'

/-- After a failure the calls of an open provider return nothing else. -/
theorem answers_of_surfaced (h : Reads p w) (hopen : w.state.closed = false) {e : FetchError}
    (hs : w.state.surfaced = some e) (ht : Taken p w w') :
    ∃ c, answers w'.log = answers w.log ++ List.replicate c (.error e) := by
  -- a call that is under way has seen no failure
  have hidle : ∀ {k : Nat} {r : Reader}, w.readers k ≠ some r := by
    intro k r hk
    obtain ⟨-, -, hno, -⟩ := h.waits hk
    rw [hs] at hno
    exact nomatch hno
  have same : ∀ {log : List Event}, answers log = answers w.log →
      ∃ c, answers log = answers w.log ++ List.replicate c (.error e) := fun hlog =>
    ⟨0, hlog.trans (List.append_nil _).symm⟩
  cases ht with
  | heard now hp hl => exact same (by rw [answers_runLeg, answers_hears])
  | ran now addition hp => exact same (answers_runLeg ..)
  | called now hk =>
      rw [State.moveOn_again hopen hs]
      exact ⟨1, answers_done ..⟩
  | filled now hk => exact absurd hk hidle
  | looked now hk => exact absurd hk hidle
  | abandoned hk => exact absurd hk hidle
  | closed now => exact same (by rw [move, answers_append, answers_did, List.append_nil])

/-- **A failure that a reader got stays the answer until a close.** -/
theorem fails_later (hcreate : create m config method = .ok (p, opened))
    (hw : SoloReachable p opened w) {e : FetchError} (he : (.error e : Answer) ∈ answers w.log)
    (hsteps : Relation.ReflTransGen (SoloStep p) w w') (hopen : w'.state.closed = false) :
    Fails p w' (handles w.log).length e
      ∧ ∃ c, answers w'.log = answers w.log ++ List.replicate c (.error e) := by
  -- by induction on the steps: each of them adds the same failure to the answers, or nothing
  induction hsteps with
  | refl =>
      have hreads := (reads_reachable hcreate hw).2 hopen
      exact ⟨fails_of_surfaced hreads hopen (surfaced_of_error hreads he), 0,
        (List.append_nil _).symm⟩
  | @tail v v' hpast hlast ih =>
      have hopenV := hlast.1.taken.open hopen
      obtain ⟨-, c, hc⟩ := ih hopenV
      have hv := hw.trans hpast
      have hreads := (reads_reachable hcreate hv).2 hopenV
      have hreads' := (reads_reachable hcreate (hv.trans (.single hlast))).2 hopen
      have heV : (.error e : Answer) ∈ answers v.log := by
        rw [hc]
        exact List.mem_append_left _ he
      obtain ⟨c', hc'⟩ :=
        answers_of_surfaced hreads hopenV (surfaced_of_error hreads heV) hlast.1.taken
      have hans : answers v'.log = answers w.log ++ List.replicate (c + c') (.error e) := by
        rw [hc', hc, List.append_assoc, List.replicate_append_replicate]
      have hgiven : (handles v'.log).length = (handles w.log).length := by
        rw [handles_of_answers hans, List.filterMap_replicate_of_none rfl, List.append_nil]
      refine ⟨?_, c + c', hans⟩
      rw [← hgiven]
      refine fails_of_surfaced hreads' hopen (surfaced_of_error hreads' ?_)
      rw [hans]
      exact List.mem_append_left _ he

/-! ## What stands before a failure -/

/-- A look for a chunk whose task has ended is the last one. -/
theorem look_done (hsound : Consistent p w.state w.points w.broken w.payloads)
    (hopen : w.state.closed = false) {n : Nat} (ht : w.state.tasks[n]? = some .ended)
    (waited : Duration) : ∃ answer, (w.state.look waited n).2.2 = .done answer := by
  obtain ⟨d, hd⟩ := hsound.chunk ht
  have hfit := hsound.fits hd
  rw [ht] at hfit
  have hlooks := State.look_looks hopen hd waited
  generalize w.state.look waited n = x at hlooks
  cases hlooks with
  | found _ _ => exact ⟨_, rfl⟩
  | failed _ => exact ⟨_, rfl⟩
  | gone _ => exact ⟨_, rfl⟩
  | wait hw => rcases hfit.settled_of_ended with hs | hs | hs <;> (rw [hs] at hw; exact nomatch hw)

/-- A reader on its way to chunk `k`, which failed, while no other reader has a call under way. The
tasks of the chunks before it have ended, and none of them failed. -/
structure Unhindered (p : Setup) (opened : Move) (r k : Nat) (e : FetchError) (w : World) :
    Prop where
  reachable : SoloReachable p opened w
  isOpen : w.state.closed = false
  alone : w.Alone r
  ended : ∀ j, j < k → w.state.tasks[j]? = some .ended
  first : ∀ (j : Nat) (d : Descriptor), j < k → w.state.store.chunks[j]? = some d →
    d.status ≠ .failed
  failed : ∃ d, w.state.store.chunks[k]? = some d ∧ d.status = .failed ∧ d.error = some e

/-- By the legs of its own calls, all at one moment, a reader comes to the failure of chunk `k`. -/
def Arrives (p : Setup) (r k : Nat) (now : Moment) (e : FetchError) (w : World) : Prop :=
  ∃ ts v, (∀ t ∈ ts, t.now = now ∧ t.action.isLegOf r = true) ∧ w.exec p ts = some v
    ∧ Fails p v k e

theorem Arrives.act {r k : Nat} {now : Moment} {e : FetchError} {a : Action} {v : World}
    (hact : w.act p ⟨now, .zero, a⟩ = some v) (ha : a.isLegOf r = true)
    (hv : Arrives p r k now e v) : Arrives p r k now e w := by
  obtain ⟨ts, u, hts, hrun, hfails⟩ := hv
  refine ⟨⟨now, .zero, a⟩ :: ts, u, ?_, ?_, hfails⟩
  · intro t ht
    rcases List.mem_cons.1 ht with rfl | ht
    · exact ⟨rfl, ha⟩
    · exact hts t ht
  · rw [exec, hact]
    exact hrun

namespace Unhindered

variable {r k : Nat} {e : FetchError}

/-- The reader has no more than the chunks before the failure. -/
theorem given_le (h : Unhindered p opened r k e w) (hreads : Reads p w) :
    (handles w.log).length ≤ k := by
  obtain ⟨d, hd, hf, -⟩ := h.failed
  exact hreads.given_le_of_failed hd hf

/-- The only failure that it can have seen is that of chunk `k`. -/
theorem fails (h : Unhindered p opened r k e w) (hreads : Reads p w) {e' : FetchError}
    (hs : w.state.surfaced = some e') : Fails p w k e := by
  obtain ⟨d, hd, hf, he⟩ := h.failed
  exact fails_of_first hreads h.isOpen hd hf he h.first hs

/-- **A leg of the reader leaves it unhindered**, if it ends no task, and consumes chunks at most. -/
theorem leg (h : Unhindered p opened r k e w) {now : Moment} {a : Action} {wait : Nat → Reader}
    {x : State × List Effect × Progress}
    (hact : w.act p ⟨now, .zero, a⟩ = some (w.runReader now r wait x))
    (hopen : x.1.closed = false)
    (htasks : ∀ {j : Nat}, w.state.tasks[j]? = some .ended → x.1.tasks[j]? = some .ended)
    (hsize : x.1.store.chunks.length = w.state.store.chunks.length)
    (hstore : ∀ {j : Nat} {d' : Descriptor}, x.1.store.chunks[j]? = some d' →
      ∃ d, w.state.store.chunks[j]? = some d
        ∧ (d' = d ∨ d.status = .downloaded ∧ d'.status = .consumed)) :
    Unhindered p opened r k e (w.runReader now r wait x) := by
  have halone := h.alone.runReader now wait x
  refine ⟨h.reachable.trans (.single ⟨⟨_, hact⟩, halone.solo⟩), ?_, halone, ?_, ?_, ?_⟩
  · rw [state_runReader]; exact hopen
  · intro j hj
    rw [state_runReader]
    exact htasks (h.ended j hj)
  · intro j d' hj hd' hf
    rw [state_runReader] at hd'
    obtain ⟨d, hd, rfl | ⟨-, hs⟩⟩ := hstore hd'
    · exact h.first j d' hj hd hf
    · rw [hs] at hf; exact nomatch hf
  · rw [state_runReader]
    obtain ⟨d, hd, hf, he⟩ := h.failed
    obtain ⟨d', hd'⟩ := Store.exists_chunk (s := x.1.store) (i := k)
      (by rw [hsize]; exact Store.lt_of_chunk hd)
    obtain ⟨d₀, hd₀, hsame⟩ := hstore hd'
    rw [hd] at hd₀
    obtain rfl := Option.some.inj hd₀
    -- only downloaded chunks are consumed, so the failed one is left alone
    rcases hsame with rfl | ⟨hs, -⟩
    · exact ⟨d', hd', hf, he⟩
    · rw [hf] at hs; exact nomatch hs

/-- A call moves on, unless a failure was seen before. -/
theorem called (hcreate : create m config method = .ok (p, opened))
    (h : Unhindered p opened r k e w) (now : Moment) (hr : w.readers r = none)
    (hs : w.state.surfaced = none) : ∃ v n, w.act p ⟨now, .zero, .call r⟩ = some v
      ∧ Unhindered p opened r k e v ∧ v.readers r = some (.fill n)
      ∧ handles v.log = handles w.log := by
  have hsound := sound_reachable hcreate h.reachable.reachable h.isOpen
  have hreads := (reads_reachable hcreate h.reachable).2 h.isOpen
  have hact : w.act p ⟨now, .zero, .call r⟩ =
      some (w.runReader now r .fill (w.state.moveOn p)) := act_call hr
  have hmoves := State.moveOn_moves (p := p) h.isOpen hsound.size
  obtain ⟨store, held, current, hframe⟩ := State.moveOn_frame p w.state
  generalize w.state.moveOn p = x at hact hmoves hframe
  cases hmoves with
  | again hs' => rw [hs] at hs'; cases hs'
  | past effects _ hr hn =>
      -- the reader is not past the end, since chunk `k` is still to come
      exfalso
      obtain ⟨d, hd, hf, -⟩ := h.failed
      have hk := Store.lt_of_chunk hd
      have hle := h.given_le hreads
      obtain ⟨rest, -, hstage⟩ := hreads.stage
      cases hstage with
      | reading _ hc => rw [hsound.size] at hk; omega
      | atEnd _ _ _ hall => have hd' := hall hd; rw [hf] at hd'; cases hd'
      | failed hs' _ _ _ _ => rw [hs] at hs'; cases hs'
  | @ahead s' effects _ hconsumes hn =>
      refine ⟨_, (w.state.current + 1).toNat, hact, h.leg hact ?_ ?_ ?_ ?_, ?_, ?_⟩
      · exact (congrArg State.closed hframe).trans h.isOpen
      · exact fun {j} hj => (congrArg (fun s => s.tasks[j]?) hframe).trans hj
      · exact hconsumes.size
      · intro j d' hd'
        obtain ⟨d, hd, hsame | ⟨-, hdown, hcons, -⟩⟩ := hconsumes.chunk hd'
        · exact ⟨d, hd, Or.inl hsame⟩
        · exact ⟨d, hd, Or.inr ⟨hdown, hcons⟩⟩
      · exact Function.update_self ..
      · rw [handles, answers_waiting]
        rfl

/-- A call that may claim goes on to look. -/
theorem filled (h : Unhindered p opened r k e w) (now : Moment) {n : Nat}
    (hr : w.readers r = some (.fill n)) : ∃ v, w.act p ⟨now, .zero, .fill r⟩ = some v
      ∧ Unhindered p opened r k e v ∧ v.readers r = some (.look n)
      ∧ handles v.log = handles w.log := by
  have hact : w.act p ⟨now, .zero, .fill r⟩ =
      some (w.runReader now r .look (w.state.claims p n)) := act_fill hr
  obtain ⟨tasks, held, peak, inFlight, hframe⟩ := State.fill_frame p w.state
  have hstore : (w.state.fill p).state.store = w.state.store := by rw [hframe]
  refine ⟨_, hact, h.leg hact ?_ fill_tasks ?_ ?_, Function.update_self .., ?_⟩
  · exact (State.fill_closed p w.state).trans h.isOpen
  · exact congrArg (fun s => s.chunks.length) hstore
  · exact fun hd' => ⟨_, (congrArg (fun s => s.chunks[_]?) hstore).symm.trans hd', Or.inl rfl⟩
  · rw [handles, State.claims, answers_waiting]
    rfl

/-- A look hands out a chunk or brings the failure. -/
theorem looked (hcreate : create m config method = .ok (p, opened))
    (h : Unhindered p opened r k e w) (now : Moment) {n : Nat}
    (hr : w.readers r = some (.look n)) : ∃ v, w.act p ⟨now, .zero, .look r⟩ = some v
      ∧ Unhindered p opened r k e v
      ∧ ((handles w.log).length < (handles v.log).length ∨ Fails p v k e) := by
  have hsound := sound_reachable hcreate h.reachable.reachable h.isOpen
  have hreads := (reads_reachable hcreate h.reachable).2 h.isOpen
  obtain ⟨rfl, -⟩ := hreads.stage_of_looking hr
  obtain ⟨-, hlt, -⟩ := hreads.waits hr
  obtain ⟨d, hd⟩ := Store.exists_chunk (s := w.state.store) (by rw [hsound.size]; exact hlt)
  have hact : w.act p ⟨now, .zero, .look r⟩ = some (w.runReader now r .look
      (w.state.look now.elapsed (handles w.log).length)) := act_look hr
  -- the reader looks for a chunk before `k`, or for `k` itself
  have hended : w.state.tasks[(handles w.log).length]? = some .ended := by
    rcases Nat.lt_or_eq_of_le (h.given_le hreads) with hbefore | hat
    · exact h.ended _ hbefore
    · obtain ⟨d', hd', hf, -⟩ := h.failed
      rw [hat]
      exact ((hsound.fits hd').ended (Or.inr (Or.inr hf))).1
  have hlooks := State.look_looks h.isOpen hd now.elapsed
  obtain ⟨answer, hdone⟩ := look_done hsound h.isOpen hended now.elapsed
  obtain ⟨current, surfaced, hframe⟩ := State.look_frame w.state now.elapsed (handles w.log).length
  generalize w.state.look now.elapsed (handles w.log).length = x at hact hlooks hframe hdone
  have hv : Unhindered p opened r k e (w.runReader now r .look x) := by
    refine h.leg hact ?_ ?_ ?_ ?_
    · rw [hframe]; exact h.isOpen
    · rw [hframe]; exact id
    · rw [hframe]
    · rw [hframe]; exact fun hd' => ⟨_, hd', Or.inl rfl⟩
  have hreads' := (reads_reachable hcreate hv.reachable).2 hv.isOpen
  refine ⟨_, hact, hv, ?_⟩
  cases hlooks with
  | found effects hs =>
      left
      rw [handles_of_answers (answers_done ..), List.length_append]
      exact Nat.lt_succ_self _
  | failed hs => exact Or.inr (hv.fails hreads' rfl)
  | gone hs =>
      rcases hs with hs | hs
      · exact absurd (hreads.consumed hd hs) (Nat.lt_irrefl _)
      · exact absurd hs (hsound.fits hd).ne_released
  | wait _ => cases hdone

/-- **An unhindered reader comes to the failure**, by induction on the chunks that are still to be
handed out. -/
theorem arrives (hcreate : create m config method = .ok (p, opened))
    (h : Unhindered p opened r k e w) (now : Moment) : Arrives p r k now e w := by
  induction hn : k - (handles w.log).length using Nat.strongRecOn generalizing w with
  | _ n ih =>
      have look : ∀ {v : World} {i : Nat}, Unhindered p opened r k e v →
          v.readers r = some (.look i) → handles v.log = handles w.log →
          Arrives p r k now e v := by
        intro v i hv hr hsame
        obtain ⟨u, hact, hu, hmore | hfails⟩ := hv.looked hcreate now hr
        · have hle := hu.given_le ((reads_reachable hcreate hu.reachable).2 hu.isOpen)
          rw [hsame] at hmore
          exact .act hact (beq_self_eq_true r) (ih _ (by omega) hu rfl)
        · exact .act hact (beq_self_eq_true r) ⟨[], u, nofun, rfl, hfails⟩
      have fill : ∀ {v : World} {i : Nat}, Unhindered p opened r k e v →
          v.readers r = some (.fill i) → handles v.log = handles w.log →
          Arrives p r k now e v := by
        intro v i hv hr hsame
        obtain ⟨u, hact, hu, hr', hsame'⟩ := hv.filled now hr
        exact .act hact (beq_self_eq_true r) (look hu hr' (hsame'.trans hsame))
      have hreads := (reads_reachable hcreate h.reachable).2 h.isOpen
      match hr : w.readers r with
      | some (.look i) => exact look h hr rfl
      | some (.fill i) => exact fill h hr rfl
      | none =>
          cases hs : w.state.surfaced with
          | some e' => exact ⟨[], w, nofun, rfl, h.fails hreads hs⟩
          | none =>
              obtain ⟨v, i, hact, hv, hr', hsame⟩ := h.called hcreate now hr hs
              exact .act hact (beq_self_eq_true r) (fill hv hr' hsame)

end Unhindered

/-- What a reader gets when chunk `k` is the first one that failed. -/
structure HandsOut (p : Setup) (w : World) (k : Nat) (e : FetchError) : Prop where
  /-- The first `k` calls that returned got the chunks before it, in order. -/
  given : (handles w.log).map Handle.index = List.range (min k (answers w.log).length)
  /-- The call after them got the failure. -/
  fails : k < (answers w.log).length → Fails p w k e
  /-- No call looks for a chunk after it, nor waits for one whose task has ended. -/
  waits : ∀ (r n : Nat), w.readers r = some (.look n) → n ≤ k
    ∧ (w.state.tasks[n]? = some .ended → ∀ waited, ∃ answer,
        (w.state.look waited n).2.2 = .done answer)
  /-- Once the tasks of the chunks before it have ended, a reader gets them all by reading on. -/
  arrives : (∀ j, j < k → w.state.tasks[j]? = some .ended) →
    ∀ (r : Nat) (now : Moment), w.Alone r → Arrives p r k now e w

theorem handsOut (hcreate : create m config method = .ok (p, opened))
    (hw : SoloReachable p opened w) (hopen : w.state.closed = false) {k : Nat} {d : Descriptor}
    {e : FetchError} (hd : w.state.store.chunks[k]? = some d) (hf : d.status = .failed)
    (he : d.error = some e)
    (hfirst : ∀ (j : Nat) (d' : Descriptor), j < k → w.state.store.chunks[j]? = some d' →
      d'.status ≠ .failed) : HandsOut p w k e := by
  have hsound := sound_reachable hcreate hw.reachable hopen
  have hreads := (reads_reachable hcreate hw).2 hopen
  have hle := hreads.given_le_of_failed hd hf
  have hfails : ∀ {e' : FetchError}, w.state.surfaced = some e' → Fails p w k e :=
    fun hs => fails_of_first hreads hopen hd hf he hfirst hs
  have hlen : w.state.surfaced = none → (answers w.log).length = (handles w.log).length := by
    intro hs
    rw [answers_of_failed hreads hd hf hs, List.length_map]
  refine ⟨?_, ?_, ?_, ?_⟩
  · cases hs : w.state.surfaced with
    | none =>
        rw [hlen hs, Nat.min_eq_right hle]
        refine indices_eq_range fun hg => ?_
        obtain ⟨d', -, hh⟩ := hreads.handed hg
        exact hh.index
    | some e' =>
        obtain ⟨r, hr⟩ := (hfails hs).answers
        rw [hr, List.length_append, List.length_map, (hfails hs).length, Nat.min_eq_left (by omega)]
        exact (hfails hs).given
  · intro hmore
    cases hs : w.state.surfaced with
    | none => rw [hlen hs] at hmore; omega
    | some e' => exact hfails hs
  · intro r n hr
    obtain ⟨rfl, -⟩ := hreads.stage_of_looking hr
    exact ⟨hle, fun hended waited => look_done hsound hopen hended waited⟩
  · intro hended r now halone
    exact Unhindered.arrives hcreate ⟨hw, hopen, halone, hended, hfirst, d, hd, hf, he⟩ now

end World

/-- **A failure is handed out in its chunk's place, whatever order the tasks end in.** When a call of
`advance` returned a failure, the chunks before the first one that failed were handed out, the
failure is the one on record for it, and it stays the answer until a close. Once a chunk failed, no
further one is claimed, but every chunk before it is, and a reader that reads on gets them all. -/
theorem failure_in_place {m : Manifest} {config : FetchConfig} {method : Method} {p : Setup}
    {opened : Move} {w : World} (hcreate : create m config method = .ok (p, opened))
    (hw : World.SoloReachable p opened w) (hopen : w.state.closed = false) :
    (∀ e : FetchError, (.error e : Answer) ∈ answers w.log →
        ∃ k, ∀ w', Relation.ReflTransGen (World.SoloStep p) w w' → w'.state.closed = false →
          World.Fails p w' k e
            ∧ ∃ c, answers w'.log = answers w.log ++ List.replicate c (.error e))
      ∧ ∀ (k : Nat) (d : Descriptor), w.state.store.chunks[k]? = some d → d.status = .failed →
          (∀ w', Relation.ReflTransGen (World.Step p) w w' → w'.state.next = w.state.next)
          ∧ (∀ j, j ≤ k → j < w.state.next)
          ∧ ((∀ (j : Nat) (d' : Descriptor), j < k → w.state.store.chunks[j]? = some d' →
              d'.status ≠ .failed) →
            ∃ e, d.error = some e ∧ World.HandsOut p w k e) := by
  refine ⟨?_, ?_⟩
  · intro e he
    exact ⟨_, fun w' hsteps hopen' => World.fails_later hcreate hw he hsteps hopen'⟩
  · intro k d hd hf
    have hsound := World.sound_reachable hcreate hw.reachable hopen
    have hfit := hsound.fits hd
    refine ⟨fun w' => World.next_of_halted (hsound.halts hd hf), ?_, ?_⟩
    · intro j hj
      have hk := State.lt_next (hfit.ended (Or.inr (Or.inr hf))).1
      omega
    · intro hfirst
      obtain ⟨e, he⟩ := Option.isSome_iff_exists.1 (hfit.error.2 hf)
      exact ⟨e, he, World.handsOut hcreate hw hopen hd hf he hfirst⟩

namespace Sample

/-- Chunk 1 fails before chunk 0 arrives. The reader makes two calls after that. -/
def failsAhead : List Tick :=
  stretch 0 .start 3 ++ stretch 1 .start 3 ++
  stretch 1 (.payload (.error (.http 404 none ""))) 1 ++
  stretch 0 (.payload (.ok (payload 0))) 1 ++ advancing dawn ++ advancing dawn

end Sample

/-- Chunk 0 is handed out although chunk 1 failed before it arrived. -/
theorem failure_in_place_fails_ahead :
    ∃ w e, World.SoloReachable (Sample.opened Sample.bothLinks).1
        (Sample.opened Sample.bothLinks).2 w
      ∧ World.Fails (Sample.opened Sample.bothLinks).1 w 1 e
      ∧ World.HandsOut (Sample.opened Sample.bothLinks).1 w 1 e := by
  obtain ⟨w, hw, hopen, hlen, herror⟩ : ∃ w,
      World.SoloReachable (Sample.opened Sample.bothLinks).1
          (Sample.opened Sample.bothLinks).2 w
        ∧ w.state.closed = false ∧ (handles w.log).length = 1
        ∧ ((answers w.log).any fun a => !a.isOk) = true :=
    World.exists_soloReachable Sample.dawn Sample.failsAhead (by decide) (by decide +kernel)
  obtain ⟨hsticky, hfailed⟩ :=
    failure_in_place (Sample.create_opened Sample.bothLinks) hw hopen
  obtain ⟨e, he⟩ : ∃ e : FetchError, (.error e : Answer) ∈ answers w.log := by
    obtain ⟨a, ha, hnotOk⟩ := List.any_eq_true.1 herror
    cases a with
    | error e => exact ⟨e, ha⟩
    | ok answer => cases hnotOk
  obtain ⟨k, hk⟩ := hsticky e he
  obtain ⟨hfails, -⟩ := hk w .refl hopen
  obtain rfl : k = 1 := hfails.length.symm.trans hlen
  obtain ⟨d, hd, hf, hde⟩ := hfails.failed
  obtain ⟨-, -, hrest⟩ := hfailed 1 d hd hf
  obtain ⟨e', he', hout⟩ := hrest hfails.first
  rw [hde] at he'
  obtain rfl := Option.some.inj he'
  exact ⟨w, e, hw, hfails, hout⟩

end ResultChunks.Provider
