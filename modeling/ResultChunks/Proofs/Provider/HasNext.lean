import ResultChunks.Proofs.Provider.Close
import ResultChunks.Proofs.Provider.Prefetch

/-!
# Whether there is a next chunk

`hasNext` is computed from the position, the failure that was seen and the closed flag, and calls of
`advance` decide step by step. The two agree because nothing goes back: a failure that was seen stays,
a closed provider stays closed, and the position never moves to an earlier chunk. For the last of
these, with any number of readers, every chunk before the position and every chunk before one that a
reader looks for is consumed (`Passed`), and only downloaded chunks are handed out.
-/

namespace ResultChunks.Provider

variable {p : Setup} {s s' : State}

/-- The reader is past the last chunk, or has seen a failure. -/
def State.Ended (p : Setup) (s : State) : Prop :=
  s.surfaced.isSome = true ∨ (p.count : Int) ≤ s.current + 1

theorem State.hasNext_eq_false_iff : s.hasNext p = false ↔ s.closed = true ∨ s.Ended p := by
  rw [State.hasNext, State.Ended]
  cases s.closed <;> cases s.surfaced <;> simp

/-- A call that begins where there is no next chunk comes back at once, without one. -/
theorem State.moveOn_of_not_hasNext (hsize : s.closed = false → s.store.chunks.length = p.count)
    (h : s.hasNext p = false) :
    ∃ t effects a, s.moveOn p = (t, effects, .done a) ∧ ∀ g, a ≠ .ok (some g) := by
  cases hc : s.closed with
  | true => exact ⟨_, _, _, moveOn_of_closed hc, fun g => nofun⟩
  | false =>
    have hend : s.Ended p := (State.hasNext_eq_false_iff.1 h).resolve_left (by simp [hc])
    have hmoves := State.moveOn_moves (p := p) hc (hsize hc)
    generalize s.moveOn p = x at hmoves
    cases hmoves with
    | again hs => exact ⟨_, _, _, rfl, fun g => nofun⟩
    | past effects hs hr hn => exact ⟨_, _, _, rfl, fun g => nofun⟩
    | ahead effects hs hr hn =>
      rcases hend with hsome | hlast
      · rw [hs] at hsome
        cases hsome
      · omega

/-- Consuming leaves consumed chunks alone. -/
theorem State.Consumes.isConsumed (h : s.Consumes s') {j : Nat} (hj : s.IsConsumed j) :
    s'.IsConsumed j := by
  obtain ⟨d, hd, hs⟩ := hj
  obtain ⟨d', hd'⟩ := Store.exists_chunk (s := s'.store) (i := j)
    (by rw [h.size]; exact Store.lt_of_chunk hd)
  obtain ⟨d₀, hd₀, hcases⟩ := h.chunk hd'
  obtain rfl := Option.some.inj (hd.symm.trans hd₀)
  rcases hcases with rfl | ⟨-, -, hcon, -⟩
  · exact ⟨_, hd', hs⟩
  · exact ⟨d', hd', hcon⟩

/-- Claims leave alone what a reader goes by. -/
theorem State.fill_reads (p : Setup) (s : State) : (s.fill p).state.store = s.store ∧
    (s.fill p).state.current = s.current ∧ (s.fill p).state.surfaced = s.surfaced := by
  obtain ⟨tasks, held, peak, inFlight, hframe⟩ := State.fill_frame p s
  rw [hframe]
  exact ⟨rfl, rfl, rfl⟩

/-! ## Chunks that were passed -/

/-- Chunks before the position are consumed, and so are those before one that a reader looks for. -/
structure Passed (p : Setup) (s : State) (readers : Nat → Option Reader) : Prop where
  bounds : -1 ≤ s.current ∧ s.current ≤ p.count
  behind : ∀ j : Nat, (j : Int) < s.current → s.IsConsumed j
  /-- The chunk at the position was there to be handed out. -/
  given : ∀ (j : Nat) (d : Descriptor), (j : Int) = s.current → s.store.chunks[j]? = some d →
    d.status = .downloaded ∨ d.status = .consumed
  sought : ∀ k n, readers k = some (.fill n) ∨ readers k = some (.look n) →
    n < p.count ∧ ∀ j, j < n → s.IsConsumed j

namespace Passed

variable {readers : Nat → Option Reader}

/-- The steps of tasks leave passed chunks passed. -/
theorem keeps (h : Passed p s readers) (hk : Keeps s s')
    (hsize : s'.store.chunks.length = s.store.chunks.length) : Passed p s' readers where
  bounds := by rw [hk.current]; exact h.bounds
  behind := by
    rw [hk.current]
    exact fun j hj => hk.isConsumed (h.behind j hj)
  given := by
    rw [hk.current]
    intro j d' hj hd'
    obtain ⟨d, hd⟩ := Store.exists_chunk (s := s.store) (i := j)
      (by rw [← hsize]; exact Store.lt_of_chunk hd')
    have hs := h.given j d hj hd
    have hsettled : d.status.wantsLink = false := by
      rcases hs with hs | hs <;> rw [hs] <;> rfl
    obtain rfl := Option.some.inj ((hk.settled hd hsettled).symm.trans hd')
    exact hs
  sought := by
    intro k n hn
    obtain ⟨hlt, hall⟩ := h.sought k n hn
    exact ⟨hlt, fun j hj => hk.isConsumed (hall j hj)⟩

/-- Consuming leaves passed chunks passed. -/
theorem consumes (h : Passed p s readers) (hr : s.Consumes s') : Passed p s' readers where
  bounds := by rw [hr.current]; exact h.bounds
  behind := by
    rw [hr.current]
    exact fun j hj => hr.isConsumed (h.behind j hj)
  given := by
    rw [hr.current]
    intro j d' hj hd'
    obtain ⟨d, hd, rfl | ⟨-, -, hcon, -⟩⟩ := hr.chunk hd'
    · exact h.given j d' hj hd
    · exact Or.inr hcon
  sought := by
    intro k n hn
    obtain ⟨hlt, hall⟩ := h.sought k n hn
    exact ⟨hlt, fun j hj => hr.isConsumed (hall j hj)⟩

/-- After that, all chunks up to the position are consumed. -/
theorem consumed (h : Passed p s readers) (hsize : s.store.chunks.length = p.count)
    (hr : s.Consumes s') {j : Nat} (hj : (j : Int) ≤ s.current) (hlt : j < p.count) :
    s'.IsConsumed j := by
  rcases Int.lt_or_eq_of_le hj with hbefore | hat
  · exact hr.isConsumed (h.behind j hbefore)
  · obtain ⟨d, hd⟩ := Store.exists_chunk (s := s.store) (i := j) (by rw [hsize]; exact hlt)
    rcases h.given j d hat hd with hdown | hcon
    · cases hr with
      | nothing hno => exact absurd hdown (hno hat.symm hd)
      | @one i di hi hdi hs =>
        obtain rfl : i = j := by omega
        exact ⟨_, Store.chunk_set_self hd _, rfl⟩
    · exact hr.isConsumed ⟨d, hd, hcon⟩

/-- Nothing depends on anything but the store, the position and the readers. -/
theorem congr (h : Passed p s readers) (hstore : s'.store = s.store)
    (hcurrent : s'.current = s.current) : Passed p s' readers where
  bounds := by rw [hcurrent]; exact h.bounds
  behind := by rw [hcurrent]; unfold State.IsConsumed; rw [hstore]; exact h.behind
  given := by rw [hcurrent, hstore]; exact h.given
  sought := by unfold State.IsConsumed; rw [hstore]; exact h.sought

/-- A reader looks for a chunk, or for nothing. -/
theorem update (h : Passed p s readers) (k : Nat) {reader : Option Reader}
    (hreader : ∀ n, reader = some (.fill n) ∨ reader = some (.look n) →
      n < p.count ∧ ∀ j, j < n → s.IsConsumed j) :
    Passed p s (Function.update readers k reader) where
  bounds := h.bounds
  behind := h.behind
  given := h.given
  sought := by
    intro i n hn
    by_cases hik : i = k
    · subst hik
      rw [Function.update_self] at hn
      exact hreader n hn
    · rw [Function.update_of_ne hik] at hn
      exact h.sought i n hn

/-- A reader's call is over. -/
theorem idle (h : Passed p s readers) (k : Nat) :
    Passed p s (Function.update readers k none) :=
  h.update k fun n hn => by rcases hn with hn | hn <;> cases hn

/-- The end is reached. -/
theorem past (h : Passed p s readers) (hsize : s.store.chunks.length = p.count)
    (hr : s.Consumes s') (hn : p.count ≤ (s.current + 1).toNat) :
    Passed p { s' with current := p.count } readers where
  bounds := by
    change (-1 : Int) ≤ (p.count : Int) ∧ (p.count : Int) ≤ p.count
    omega
  behind := by
    intro j hj
    have hlt : j < p.count := Int.ofNat_lt.1 hj
    exact h.consumed hsize hr (by omega) hlt
  given := by
    intro j d hj hd
    have hlt := Store.lt_of_chunk hd
    have hsame := hr.size
    have hat : (j : Int) = p.count := hj
    change j < s'.store.chunks.length at hlt
    omega
  sought := (h.consumes hr).sought

/-- A chunk is handed out. -/
theorem found (h : Passed p s readers) {k n : Nat} {d : Descriptor}
    (hk : readers k = some (.look n)) (hd : s.store.chunks[n]? = some d)
    (hs : d.status = .downloaded) : Passed p { s with current := n } readers where
  bounds := by
    have hlt := (h.sought k n (Or.inr hk)).1
    change (-1 : Int) ≤ (n : Int) ∧ (n : Int) ≤ p.count
    omega
  behind := by
    intro j hj
    exact (h.sought k n (Or.inr hk)).2 j (Int.ofNat_lt.1 hj)
  given := by
    intro j d' hj hd'
    obtain rfl : j = n := Int.ofNat_inj.1 hj
    obtain rfl := Option.some.inj (hd.symm.trans hd')
    exact Or.inl hs
  sought := h.sought

/-- A downloaded chunk is not before the position. -/
theorem le_of_downloaded (h : Passed p s readers) {n : Nat} {d : Descriptor}
    (hd : s.store.chunks[n]? = some d) (hs : d.status = .downloaded) : s.current ≤ n := by
  by_contra hlt
  obtain ⟨d', hd', hcon⟩ := h.behind n (by omega)
  obtain rfl := Option.some.inj (hd.symm.trans hd')
  rw [hs] at hcon
  cases hcon

end Passed

/-! ## What one reader got -/

/-- What the calls of a reader returned, in order. -/
def answersTo (k : Nat) (log : List Event) : List Answer :=
  log.filterMap fun
    | .returned j answer => if j = k then some answer else none
    | _ => none

@[simp] theorem answersTo_append (k : Nat) (log more : List Event) :
    answersTo k (log ++ more) = answersTo k log ++ answersTo k more := List.filterMap_append

@[simp] theorem answersTo_did (k : Nat) (now : Moment) (effects : List Effect) :
    answersTo k (effects.map (.did now)) = [] := by
  rw [answersTo, List.filterMap_map]
  exact List.filterMap_eq_nil_iff.2 fun _ _ => rfl

@[simp] theorem answersTo_heard (k i : Nat) (signal : Signal) :
    answersTo k [.heard i signal] = [] := rfl

theorem answersTo_self (k : Nat) (a : Answer) : answersTo k [.returned k a] = [a] := by
  simp [answersTo]

theorem answersTo_ne {k j : Nat} (h : k ≠ j) (a : Answer) : answersTo k [.returned j a] = [] := by
  simp [answersTo, h.symm]

namespace World

variable {w w' : World} {m : Manifest} {config : FetchConfig} {method : Method} {opened : Move}

theorem answersTo_done (w : World) (now : Moment) (k : Nat) (wait : Nat → Reader) (s : State)
    (effects : List Effect) (a : Answer) :
    answersTo k (w.runReader now k wait (s, effects, .done a)).log = answersTo k w.log ++ [a] := by
  change answersTo k (w.log ++ effects.map (.did now) ++ [Event.returned k a]) = _
  rw [answersTo_append, answersTo_append, answersTo_did, List.append_nil, answersTo_self]

/-- A leg of one reader is nothing to another. -/
theorem answersTo_runReader_ne {k j : Nat} (h : k ≠ j) (w : World) (now : Moment)
    (wait : Nat → Reader) (x : State × List Effect × Progress) :
    answersTo k (w.runReader now j wait x).log = answersTo k w.log := by
  obtain ⟨s, effects, a | _⟩ := x
  · change answersTo k (w.log ++ effects.map (.did now) ++ [Event.returned j a]) = _
    rw [answersTo_append, answersTo_append, answersTo_did, answersTo_ne h, List.append_nil,
      List.append_nil]
  · change answersTo k (w.log ++ effects.map (.did now)) = _
    rw [answersTo_append, answersTo_did, List.append_nil]

theorem readers_runReader_ne {k j : Nat} (h : k ≠ j) (w : World) (now : Moment)
    (wait : Nat → Reader) (x : State × List Effect × Progress) :
    (w.runReader now j wait x).readers k = w.readers k := by
  obtain ⟨s, effects, _ | _⟩ := x
  · exact Function.update_of_ne h ..
  · exact Function.update_of_ne h ..

/-! ## What an action does for the readers -/

/-- What an action of an open provider can do for the readers, with any number of them. -/
inductive Serves (p : Setup) (w w' : World) : Prop where
  /-- A task goes on, and readers do not. -/
  | task (hk : Keeps w.state w'.state)
      (hsize : w'.state.store.chunks.length = w.state.store.chunks.length)
      (hreaders : w'.readers = w.readers) (ha : answers w'.log = answers w.log)
  /-- A call moves on to the next chunk. -/
  | ahead (k : Nat) (hs : w.state.surfaced = none) (hr : w.state.Consumes w'.state)
      (hn : (w.state.current + 1).toNat < p.count)
      (hreaders : w'.readers =
        Function.update w.readers k (some (.fill (w.state.current + 1).toNat)))
      (ha : answers w'.log = answers w.log)
  /-- A call that is under way goes on looking, or is given up. -/
  | goesOn (k : Nat) {reader : Option Reader} (hstore : w'.state.store = w.state.store)
      (hcurrent : w'.state.current = w.state.current)
      (hsurfaced : w'.state.surfaced = w.state.surfaced)
      (hreaders : w'.readers = Function.update w.readers k reader)
      (hreader : ∀ n, reader = some (.fill n) ∨ reader = some (.look n) →
        w.readers k = some (.fill n) ∨ w.readers k = some (.look n))
      (ha : answers w'.log = answers w.log)
  /-- A call returns that there are no more chunks. -/
  | past (k : Nat) {t : State} (hs : w.state.surfaced = none) (hr : w.state.Consumes t)
      (hn : p.count ≤ (w.state.current + 1).toNat)
      (hstate : w'.state = { t with current := p.count })
      (hreaders : w'.readers = Function.update w.readers k none)
      (ha : answers w'.log = answers w.log ++ [.ok none])
  /-- A call returns a chunk. -/
  | found (k : Nat) {n : Nat} {d : Descriptor} (g : Handle) (hk : w.readers k = some (.look n))
      (hd : w.state.store.chunks[n]? = some d) (hs : d.status = .downloaded)
      (hstate : w'.state = { w.state with current := n })
      (hreaders : w'.readers = Function.update w.readers k none)
      (ha : answers w'.log = answers w.log ++ [.ok (some g)])
  /-- A call returns an error. -/
  | failed (k : Nat) (e : FetchError) {surfaced : Option FetchError}
      (hkept : w.state.surfaced.isSome = true → surfaced.isSome = true)
      (hstate : w'.state = { w.state with surfaced })
      (hreaders : w'.readers = Function.update w.readers k none)
      (ha : answers w'.log = answers w.log ++ [.error e])

theorem leg_keeps (hsound : Consistent p w.state w.points w.broken w.payloads)
    (hopen : w.state.closed = false) {i : Nat} {pt : Point} (hp : w.points i = some pt)
    (now : Moment) (addition : Duration) :
    Keeps w.state (w.state.leg p now addition i pt).state ∧
      (w.state.leg p now addition i pt).state.store.chunks.length = w.state.store.chunks.length := by
  by_cases hpt : ∃ r, pt = .finish r
  · obtain ⟨r, rfl⟩ := hpt
    refine ⟨hsound.complete_keeps hopen hp now, ?_⟩
    rw [hsound.size]
    exact (hsound.complete hopen hp).size
  · have hq := State.leg_quiet p w.state now addition i (not_exists.1 hpt)
    exact ⟨hq.keeps, hq.size⟩

theorem serves_called (hsize : w.state.store.chunks.length = p.count)
    (hopen : w.state.closed = false) (k : Nat) (now : Moment) :
    Serves p w (w.runReader now k .fill (w.state.moveOn p)) := by
  have hmoves := State.moveOn_moves (p := p) hopen hsize
  generalize w.state.moveOn p = x at hmoves
  cases hmoves with
  | @again e hs => exact .failed k e (fun h => h) rfl rfl (answers_done ..)
  | past effects hs hr hn => exact .past k hs hr hn rfl rfl (answers_done ..)
  | ahead effects hs hr hn => exact .ahead k hs hr hn rfl (answers_waiting ..)

theorem serves_looked (h : Passed p w.state w.readers)
    (hsize : w.state.store.chunks.length = p.count) (hopen : w.state.closed = false) {k n : Nat}
    (hk : w.readers k = some (.look n)) (now : Moment) :
    Serves p w (w.runReader now k .look (w.state.look now.elapsed n)) := by
  obtain ⟨d, hd⟩ := Store.exists_chunk (s := w.state.store) (i := n)
    (by rw [hsize]; exact (h.sought k n (Or.inr hk)).1)
  have hlooks := State.look_looks hopen hd now.elapsed
  generalize w.state.look now.elapsed n = x at hlooks
  cases hlooks with
  | found effects hs => exact .found k _ hk hd hs rfl rfl (answers_done ..)
  | failed hs => exact .failed k _ (fun _ => rfl) rfl rfl (answers_done ..)
  | gone hs => exact .failed k _ (fun h => h) rfl rfl (answers_done ..)
  | wait hs =>
    refine .goesOn k rfl rfl rfl rfl ?_ (answers_waiting ..)
    intro i hi
    rw [hk]
    exact hi

/-- **What an action of an open provider does for the readers.** -/
theorem serves_of_taken (hsound : Consistent p w.state w.points w.broken w.payloads)
    (h : Passed p w.state w.readers) (ht : Taken p w w') (hopen' : w'.state.closed = false) :
    Serves p w w' := by
  have hopen := ht.open hopen'
  cases ht with
  | heard now hp hl =>
    have hq := State.hear_quiet hl
    exact .task hq.keeps hq.size rfl (by rw [answers_runLeg, answers_hears])
  | ran now addition hp =>
    obtain ⟨hk, hsize⟩ := leg_keeps hsound hopen hp now addition
    exact .task hk hsize rfl (answers_runLeg ..)
  | @called k now hk => exact serves_called hsound.size hopen k now
  | @filled k n now hk =>
    obtain ⟨hstore, hcurrent, hsurfaced⟩ := State.fill_reads p w.state
    refine .goesOn k hstore hcurrent hsurfaced rfl ?_ (answers_waiting ..)
    intro i hi
    rw [hk]
    rcases hi with hi | hi <;> cases hi
    exact Or.inl rfl
  | @looked k n now hk => exact serves_looked h hsound.size hopen hk now
  | @abandoned k n hk =>
    refine .goesOn k rfl rfl rfl rfl ?_ rfl
    intro i hi
    rcases hi with hi | hi <;> cases hi
  | closed now => exact absurd hopen' (not_open_of_close w now)

/-- **Every action of an open provider leaves passed chunks passed.** -/
theorem Serves.passed (hserves : Serves p w w') (h : Passed p w.state w.readers)
    (hsize : w.state.store.chunks.length = p.count) : Passed p w'.state w'.readers := by
  cases hserves with
  | task hk hsame hreaders ha =>
    rw [hreaders]
    exact h.keeps hk hsame
  | ahead k hs hr hn hreaders ha =>
    rw [hreaders]
    refine (h.consumes hr).update k ?_
    intro n hnext
    obtain rfl : (w.state.current + 1).toNat = n := by
      rcases hnext with hnext | hnext <;> cases hnext
      rfl
    exact ⟨hn, fun j hj => h.consumed hsize hr (by omega) (by omega)⟩
  | goesOn k hstore hcurrent hsurfaced hreaders hreader ha =>
    rw [hreaders]
    have hsame : Passed p w'.state w.readers := h.congr hstore hcurrent
    exact hsame.update k fun n hn => hsame.sought k n (hreader n hn)
  | past k hs hr hn hstate hreaders ha =>
    rw [hstate, hreaders]
    exact (h.past hsize hr hn).idle k
  | found k g hk hd hs hstate hreaders ha =>
    rw [hstate, hreaders]
    exact (h.found hk hd hs).idle k
  | @failed k e surfaced hkept hstate hreaders ha =>
    rw [hstate, hreaders]
    have hsame : Passed p { w.state with surfaced } w.readers := h.congr rfl rfl
    exact hsame.idle k

/-- In every reachable world with an open provider, whatever was passed is consumed. -/
theorem passed_reachable (hcreate : create m config method = .ok (p, opened))
    (hw : Reachable p opened w) : w.state.closed = false → Passed p w.state w.readers := by
  refine hw.keeps (P := fun w => w.state.closed = false → Passed p w.state w.readers) ?_ ?_
  · intro now _
    obtain ⟨rfl, entry, rfl⟩ := create_eq hcreate
    obtain ⟨hstore, hcurrent, -⟩ :=
      State.fill_reads (Setup.ofManifest m config method) (State.ofManifest m)
    have hstart : Passed (Setup.ofManifest m config method) (State.ofManifest m) fun _ => none := by
      refine ⟨?_, ?_, ?_, ?_⟩
      · change (-1 : Int) ≤ -1 ∧ (-1 : Int) ≤ (m.count : Int)
        omega
      · intro j hj
        change (j : Int) < -1 at hj
        omega
      · intro j d hj
        change (j : Int) = -1 at hj
        omega
      · intro k n hn
        rcases hn with hn | hn <;> cases hn
    exact hstart.congr hstore hcurrent
  · intro w w' hw ih ht hopen'
    have hopen := ht.open hopen'
    have hsound := sound_reachable hcreate hw hopen
    exact (serves_of_taken hsound (ih hopen) ht hopen').passed (ih hopen) hsound.size

/-! ## Where there is no next chunk -/

/-- **Past the last chunk or a failure, no action leads back.** -/
theorem Serves.ended (hserves : Serves p w w') (h : Passed p w.state w.readers)
    (hend : w.state.Ended p) : w'.state.Ended p := by
  unfold State.Ended at hend ⊢
  cases hserves with
  | task hk hsize hreaders ha =>
    rw [hk.surfaced, hk.current]
    exact hend
  | ahead k hs hr hn hreaders ha =>
    rw [hr.surfaced, hr.current]
    exact hend
  | goesOn k hstore hcurrent hsurfaced hreaders hreader ha =>
    rw [hsurfaced, hcurrent]
    exact hend
  | past k hs hr hn hstate hreaders ha =>
    rw [hstate]
    exact Or.inr (Int.le_add_one (Int.le_refl _))
  | @found k n d g hk hd hs hstate hreaders ha =>
    rw [hstate]
    -- what is handed out is not before the position
    have hle := h.le_of_downloaded hd hs
    refine hend.imp id ?_
    intro hlast
    exact Int.le_trans hlast (Int.add_le_add_right hle 1)
  | failed k e hkept hstate hreaders ha =>
    rw [hstate]
    exact hend.imp hkept id

theorem hasNext_taken (hcreate : create m config method = .ok (p, opened))
    (hw : Reachable p opened w) (ht : Taken p w w') (h : w.state.hasNext p = false) :
    w'.state.hasNext p = false := by
  rw [State.hasNext_eq_false_iff] at h ⊢
  cases hc' : w'.state.closed with
  | true => exact Or.inl rfl
  | false =>
    have hopen := ht.open hc'
    have hsound := sound_reachable hcreate hw hopen
    have hpassed := passed_reachable hcreate hw hopen
    have hend := h.resolve_left (by simp [hopen])
    exact Or.inr ((serves_of_taken hsound hpassed ht hc').ended hpassed hend)

theorem Reachable.trans (hw : Reachable p opened w) (hsteps : Relation.ReflTransGen (Step p) w w') :
    Reachable p opened w' := by
  obtain ⟨now, h⟩ := hw
  exact ⟨now, h.trans hsteps⟩

/-- **Where there is no next chunk, there never is one again.** -/
theorem hasNext_later (hcreate : create m config method = .ok (p, opened))
    (hw : Reachable p opened w) (h : w.state.hasNext p = false)
    (hsteps : Relation.ReflTransGen (Step p) w w') : w'.state.hasNext p = false := by
  induction hsteps with
  | refl => exact h
  | tail hpast hlast ih => exact hasNext_taken hcreate (hw.trans hpast) hlast.taken ih

/-- A call that begins there comes back at once, without a chunk. -/
theorem call_without_next (hcreate : create m config method = .ok (p, opened))
    (hw : Reachable p opened w) (h : w.state.hasNext p = false) {k : Nat} {now : Moment}
    {addition : Duration} (hact : w.act p ⟨now, addition, .call k⟩ = some w') :
    w'.readers k = none ∧
      ∃ a, answers w'.log = answers w.log ++ [a] ∧ ∀ g, a ≠ .ok (some g) := by
  have hsize : w.state.closed = false → w.state.store.chunks.length = p.count := fun hopen =>
    (sound_reachable hcreate hw hopen).size
  obtain ⟨t, effects, a, hmove, ha⟩ := State.moveOn_of_not_hasNext hsize h
  rw [act] at hact
  dsimp only at hact
  split at hact
  · obtain rfl := Option.some.inj hact
    rw [hmove]
    exact ⟨Function.update_self .., a, answers_done .., ha⟩
  · cases hact

/-- An action lets a reader that has no call under way there be, or its call comes back. -/
theorem no_chunk_taken (hcreate : create m config method = .ok (p, opened))
    (hw : Reachable p opened w) (h : w.state.hasNext p = false) {k : Nat}
    (hk : w.readers k = none) (ht : Taken p w w') :
    w'.readers k = none ∧ ∃ as, answersTo k w'.log = answersTo k w.log ++ as ∧
      ∀ a ∈ as, ∀ g, a ≠ .ok (some g) := by
  have same : ∀ {v : World}, v.readers k = w.readers k → answersTo k v.log = answersTo k w.log →
      v.readers k = none ∧ ∃ as, answersTo k v.log = answersTo k w.log ++ as ∧
        ∀ a ∈ as, ∀ g, a ≠ .ok (some g) := fun hreader hlog =>
    ⟨hreader.trans hk, [], hlog.trans (List.append_nil _).symm, by simp⟩
  have other : ∀ {j : Nat} {reader : Reader}, w.readers j = some reader → k ≠ j := by
    rintro j reader hj rfl
    rw [hk] at hj
    cases hj
  cases ht with
  | heard now hp hl =>
    refine same rfl ?_
    rw [log_runLeg, hears, answersTo_append, answersTo_append, answersTo_did, answersTo_heard,
      List.append_nil, List.append_nil]
  | ran now addition hp => exact same rfl (by simp)
  | @called j now hj =>
    by_cases hkj : k = j
    · subst hkj
      obtain ⟨t, effects, a, hmove, ha⟩ := State.moveOn_of_not_hasNext (p := p) (s := w.state)
        (fun hopen => (sound_reachable hcreate hw hopen).size) h
      rw [hmove]
      refine ⟨Function.update_self .., [a], answersTo_done .., ?_⟩
      intro b hb
      rw [List.mem_singleton.1 hb]
      exact ha
    · exact same (readers_runReader_ne hkj ..) (answersTo_runReader_ne hkj ..)
  | filled now hj =>
    exact same (readers_runReader_ne (other hj) ..) (answersTo_runReader_ne (other hj) ..)
  | looked now hj =>
    exact same (readers_runReader_ne (other hj) ..) (answersTo_runReader_ne (other hj) ..)
  | abandoned hj => exact same (Function.update_of_ne (other hj) ..) rfl
  | closed now => exact same rfl (by simp [move])

/-- **A reader that has no call under way there gets no chunk any more**, however many calls it makes
and whatever the other readers do. -/
theorem no_chunk_later (hcreate : create m config method = .ok (p, opened))
    (hw : Reachable p opened w) (h : w.state.hasNext p = false) {k : Nat}
    (hk : w.readers k = none) (hsteps : Relation.ReflTransGen (Step p) w w') :
    w'.readers k = none ∧ ∃ as, answersTo k w'.log = answersTo k w.log ++ as ∧
      ∀ a ∈ as, ∀ g, a ≠ .ok (some g) := by
  induction hsteps with
  | refl => exact ⟨hk, [], (List.append_nil _).symm, by simp⟩
  | @tail v w' hpast hlast ih =>
    obtain ⟨hidle, as, has, hnone⟩ := ih
    have hv := hasNext_later hcreate hw h hpast
    obtain ⟨hidle', more, hmore, hnone'⟩ :=
      no_chunk_taken hcreate (hw.trans hpast) hv hidle hlast.taken
    refine ⟨hidle', as ++ more, by rw [hmore, has, List.append_assoc], ?_⟩
    intro a ha
    rcases List.mem_append.1 ha with ha | ha
    · exact hnone a ha
    · exact hnone' a ha

/-! ## Where there is one -/

/-- An action of an open provider leaves the position alone, or a call returns. It returns that there
are no more chunks only behind the last one. -/
theorem Serves.first (hserves : Serves p w w') (h : Passed p w.state w.readers) :
    (answers w'.log = answers w.log ∧ w'.state.current = w.state.current) ∨
      ∃ a, answers w'.log = answers w.log ++ [a] ∧
        (a = .ok none → (p.count : Int) ≤ w.state.current + 1) := by
  cases hserves with
  | task hk hsize hreaders ha => exact Or.inl ⟨ha, hk.current⟩
  | ahead k hs hr hn hreaders ha => exact Or.inl ⟨ha, hr.current⟩
  | goesOn k hstore hcurrent hsurfaced hreaders hreader ha => exact Or.inl ⟨ha, hcurrent⟩
  | past k hs hr hn hstate hreaders ha =>
    have hbounds := h.bounds
    exact Or.inr ⟨_, ha, fun _ => by omega⟩
  | found k g hk hd hs hstate hreaders ha => exact Or.inr ⟨_, ha, fun hnone => by cases hnone⟩
  | failed k e hkept hstate hreaders ha => exact Or.inr ⟨_, ha, fun hnone => by cases hnone⟩

/-- **Where there is a next chunk, the next call that returns does not return the end**, unless the
provider is closed before. -/
theorem next_answer (hcreate : create m config method = .ok (p, opened))
    (hw : Reachable p opened w) (h : w.state.hasNext p = true)
    (hsteps : Relation.ReflTransGen (Step p) w w') (hopen : w'.state.closed = false) :
    (answers w'.log = answers w.log ∧ w'.state.current = w.state.current) ∨
      ∃ a more, answers w'.log = answers w.log ++ a :: more ∧ a ≠ .ok none := by
  have hbefore : w.state.current + 1 < p.count := by
    simp only [State.hasNext, Bool.and_eq_true, decide_eq_true_eq] at h
    exact h.2
  induction hsteps with
  | refl => exact Or.inl ⟨rfl, rfl⟩
  | @tail v w' hpast hlast ih =>
    have hv := hw.trans hpast
    have ht := hlast.taken
    have hopen' := ht.open hopen
    have hpassed := passed_reachable hcreate hv hopen'
    have hserves := serves_of_taken (sound_reachable hcreate hv hopen') hpassed ht hopen
    rcases ih hopen' with ⟨hsame, hcurrent⟩ | ⟨a, more, ha, hne⟩
    · rcases hserves.first hpassed with ⟨hsame', hcurrent'⟩ | ⟨a, ha, hend⟩
      · exact Or.inl ⟨hsame'.trans hsame, hcurrent'.trans hcurrent⟩
      · refine Or.inr ⟨a, [], by rw [ha, hsame], ?_⟩
        intro hnone
        have hlast := hend hnone
        omega
    · right
      rcases hserves.first hpassed with ⟨hsame', -⟩ | ⟨b, hb, -⟩
      · exact ⟨a, more, hsame'.trans ha, hne⟩
      · exact ⟨a, more ++ [b], by rw [hb, ha, List.append_assoc, List.cons_append], hne⟩

end World

end ResultChunks.Provider
