import ResultChunks.Proofs.Provider.Accounts
import ResultChunks.Proofs.Provider.Close

/-!
# What is on record of a chunk whose task ended

While a provider is open, what the log says of a chunk's task is what the accounts of the task say
(`tallied_reachable`). The last leg of the task reports how it ended and counts the attempts in the
descriptor, and the chunk becomes downloaded or failed then and not before. From there on nothing
that happens to the provider, its close included, adds to the record or changes the count.
-/

namespace ResultChunks.Provider

/-- What may become of a chunk whose task ended: it is consumed or released. -/
structure Outlasts (d d' : Descriptor) : Prop where
  attempts : d'.attempts = d.attempts
  retries : d'.retries = d.retries
  error : d'.error = d.error
  status : d'.status = d.status ∨ d'.status = .consumed ∨ d'.status = .released

theorem Outlasts.refl (d : Descriptor) : Outlasts d d := ⟨rfl, rfl, rfl, Or.inl rfl⟩

theorem outlasts_releaseOne (d : Descriptor) : Outlasts d (Store.releaseOne d) := by
  refine ⟨rfl, rfl, rfl, ?_⟩
  rw [releaseOne_status]
  split
  · exact Or.inr (Or.inl rfl)
  · exact Or.inr (Or.inr rfl)

theorem State.Consumes.outlasts {s s' : State} (h : s.Consumes s') {i : Nat} {d : Descriptor}
    (hd : s.store.chunks[i]? = some d) : ∃ d', s'.store.chunks[i]? = some d' ∧ Outlasts d d' := by
  cases h with
  | nothing _ => exact ⟨d, hd, .refl d⟩
  | @one j dj hj hdj hs =>
      by_cases hij : i = j
      · subst hij
        obtain rfl := Option.some.inj (hd.symm.trans hdj)
        exact ⟨_, Store.chunk_set_self hd _, rfl, rfl, rfl, Or.inr (Or.inl rfl)⟩
      · exact ⟨d, (Store.chunk_set_ne _ hij).trans hd, .refl d⟩

/-- A fill claims chunks that were not claimed, and leaves the other tasks alone. -/
theorem fill_claims {p : Setup} (s : State) (i : Nat) :
    (s.fill p).state.tasks[i]? = s.tasks[i]?
      ∨ (s.tasks[i]? = none ∧ (s.fill p).state.tasks[i]? = some .claimed) := by
  refine State.fill_keeps (P := fun t => t.tasks[i]? = s.tasks[i]?
    ∨ (s.tasks[i]? = none ∧ t.tasks[i]? = some .claimed)) ?_ (Or.inl rfl)
  intro t _ ht
  change (t.tasks ++ [Phase.claimed])[i]? = _ ∨ (_ ∧ (t.tasks ++ [Phase.claimed])[i]? = _)
  rcases Nat.lt_trichotomy i t.tasks.length with hlt | rfl | hgt
  · rw [List.getElem?_append_left hlt]
    exact ht
  · rw [List.getElem?_concat_length]
    rw [List.getElem?_eq_none (Nat.le_refl _)] at ht
    rcases ht with ht | ⟨-, ht⟩
    · exact Or.inr ⟨ht.symm, rfl⟩
    · cases ht
  · rw [List.getElem?_eq_none (by rw [List.length_append]; exact hgt)]
    rw [List.getElem?_eq_none (Nat.le_of_lt hgt)] at ht
    exact ht

theorem close_outlasts (s : State) {i : Nat} {d : Descriptor} (hd : s.store.chunks[i]? = some d) :
    ∃ d', s.close.state.store.chunks[i]? = some d' ∧ Outlasts d d' := by
  rw [State.close]
  split
  · exact ⟨d, hd, .refl d⟩
  · refine ⟨Store.releaseOne d, ?_, outlasts_releaseOne d⟩
    change (s.store.chunks.map Store.releaseOne)[i]? = _
    rw [List.getElem?_map, hd]
    rfl

/-- A failure to download names the chunk and the retries of the operation that ended its task. -/
theorem retries_of_taskError {i n retries : Nat} {chunk : Int} {e source : FetchError}
    (h : State.taskError i n e = .chunkDownload chunk retries source) :
    chunk = i ∧ retries = n - 1 := by
  unfold State.taskError at h
  split at h
  · cases h
  · cases h
  · cases h
    exact ⟨rfl, rfl⟩

/-- The last leg of a task leaves its chunk as it reports it. -/
theorem complete_verdict {s : State} {i : Nat} {d : Descriptor} {phase : Phase}
    {broken : Bool} {payloads : List Download} {r : TaskResult} (hc : s.closed = false)
    (hd : s.store.chunks[i]? = some d)
    (h : Fits i (some phase) (some (.finish r)) broken payloads d) (now : Moment) :
    ∃ d', (s.complete now i r).state.store.chunks[i]? = some d' ∧ d'.attempts = r.attempts
      ∧ d'.retries = r.attempts - 1
      ∧ ((∃ dl, r.result = .ok dl ∧ d'.status = .downloaded ∧ verdict d now i r =
            .downloaded i dl.byteCount dl.rowCount r.attempts now.elapsed)
        ∨ ∃ e, d'.status = .failed ∧ d'.error = some e
          ∧ (∀ k n source, e = .chunkDownload k n source → k = i ∧ n = r.attempts - 1)
          ∧ verdict d now i r = .failed i (r.attempts - 1) now.elapsed e) := by
  have hst := h.stands.2
  obtain ⟨result, n⟩ := r
  rcases complete_cases now hc hd h with ⟨dl, hr, hb, hs⟩ | ⟨e, hs, ⟨dl, hr, hb, he⟩ | ⟨e', hr, he⟩⟩
  · obtain rfl : result = .ok dl := hr
    have hdown : d.status = downloadStatus broken := hst
    rw [hs]
    refine ⟨_, Store.chunk_set_self hd _, rfl, rfl, Or.inl ⟨dl, rfl, rfl, ?_⟩⟩
    rw [verdict]
    exact if_pos (by rw [hdown, hb]; rfl)
  · obtain rfl : result = .ok dl := hr
    have hdown : d.status = downloadStatus broken := hst
    rw [hs]
    refine ⟨_, Store.chunk_set_self hd _, rfl, rfl, Or.inr ⟨e, rfl, rfl, ?_, ?_⟩⟩
    · intro k m source hk
      rw [he] at hk
      cases hk
    · rw [verdict, he, lostPayload]
      dsimp only
      rw [hdown, hb]
      rfl
  · obtain rfl : result = .error e' := hr
    rw [hs]
    refine ⟨_, Store.chunk_set_self hd _, rfl, rfl, Or.inr ⟨e, rfl, rfl, ?_, ?_⟩⟩
    · intro k m source hk
      exact retries_of_taskError (he.symm.trans hk)
    · rw [verdict, he]
      rfl

namespace World

variable {p : Setup} {w w' : World} {m : Manifest} {config : FetchConfig} {method : Method}
  {opened : Move}

/-- The task of a chunk asked for its link at some time. -/
def asked (w : World) (i : Nat) : Prop := ∃ s ∈ w.past, ∃ a, s.tasks[i]? = some (.resolving a)

/-- A chunk had a status at some time. -/
def became (w : World) (i : Nat) (status : ChunkStatus) : Prop :=
  ∃ s ∈ w.past, ∃ d, s.store.chunks[i]? = some d ∧ d.status = status

theorem present_reachable (h : Reachable p opened w) : w.state ∈ w.past := by
  refine h.keeps (P := fun w => w.state ∈ w.past) (fun _ => List.mem_cons_self) ?_
  intro w w' _ ih htaken
  cases htaken with
  | heard | ran | filled | closed => exact List.mem_cons_self
  | called | looked => rw [past_runReader, state_runReader]; exact List.mem_cons_self
  | abandoned => exact ih

/-- Every action but giving up a wait adds its state to the past. -/
theorem Taken.past (h : Taken p w w') :
    w'.past = w'.state :: w.past ∨ (w'.past = w.past ∧ w'.state = w.state) := by
  cases h with
  | heard | ran | filled | closed => exact Or.inl rfl
  | called | looked => exact Or.inl (by rw [past_runReader, state_runReader])
  | abandoned => exact Or.inr ⟨rfl, rfl⟩

theorem Taken.mem_past (h : Taken p w w') {s : State} (hs : s ∈ w.past) : s ∈ w'.past := by
  rcases h.past with hp | ⟨hp, -⟩
  · rw [hp]; exact List.mem_cons_of_mem _ hs
  · rw [hp]; exact hs

theorem Taken.of_mem_past (h : Taken p w w') {s : State} (hs : s ∈ w'.past) :
    s = w'.state ∨ s ∈ w.past := by
  rcases h.past with hp | ⟨hp, -⟩
  · rw [hp] at hs; exact List.mem_cons.1 hs
  · rw [hp] at hs; exact Or.inr hs

/-- What does not ask for a link leaves it at whether one was asked for. -/
theorem Taken.asked_iff (h : Taken p w w') (hpresent : w.state ∈ w.past) {i : Nat}
    (hi : ∀ a, w'.state.tasks[i]? = some (.resolving a) → w.state.tasks[i]? = some (.resolving a)) :
    w'.asked i ↔ w.asked i := by
  constructor
  · rintro ⟨s, hs, a, ha⟩
    rcases h.of_mem_past hs with rfl | hs
    · exact ⟨w.state, hpresent, a, hi a ha⟩
    · exact ⟨s, hs, a, ha⟩
  · rintro ⟨s, hs, a, ha⟩
    exact ⟨s, h.mem_past hs, a, ha⟩

/-! ## The accounts of an open provider -/

/-- The accounts of a chunk's task agree with what is on record. -/
def Tallied (p : Setup) (w : World) (i : Nat) : Prop :=
  Tally p i (w.asked i) (heardBy i w.log) (reportsOf i w.log) w.state.tasks[i]? (w.points i)

/-- An action that is nothing to a chunk's task. -/
theorem Tallied.frame {i : Nat} (h : w.Tallied p i) (ht : Taken p w w') (hpresent : w.state ∈ w.past)
    (htasks : w'.state.tasks[i]? = w.state.tasks[i]?) (hpoints : w'.points i = w.points i)
    (hheard : heardBy i w'.log = heardBy i w.log)
    (htold : reportsOf i w'.log = reportsOf i w.log) : w'.Tallied p i := by
  have hasked : w'.asked i ↔ w.asked i :=
    ht.asked_iff hpresent fun a ha => by rw [← htasks]; exact ha
  rw [Tallied, hheard, htold, htasks, hpoints, propext hasked]
  exact h

/-- A leg of a chunk's own task. -/
theorem Tallied.leg {i : Nat} {l : Leg} {heard : List Signal} (ht : Taken p w w')
    (hpresent : w.state ∈ w.past)
    (h : LegTally p i (w.asked i) heard (reportsOf i w.log) l)
    (hasks : ∀ a, l.state.tasks[i]? = some (.resolving a) →
      w.state.tasks[i]? = some (.resolving a) ∨ l.next = none)
    (hstate : w'.state = l.state) (hpoints : w'.points i = l.next)
    (hheard : heardBy i w'.log = heard)
    (htold : reportsOf i w'.log = reportsOf i w.log ++ reportsIn i l.effects) : w'.Tallied p i := by
  rw [Tallied, hheard, htold, hpoints, hstate]
  by_cases hnow : l.next = none ∧ ∃ a, l.state.tasks[i]? = some (.resolving a)
  · -- a task that just asked for its link is at a stage where that does not matter yet
    obtain ⟨hnext, a, ha⟩ := hnow
    rw [LegTally, hnext, ha] at h
    rw [hnext, ha]
    exact h
  · have hasked : w'.asked i ↔ w.asked i := by
      refine ht.asked_iff hpresent fun a ha => ?_
      rw [hstate] at ha
      rcases hasks a ha with hold | hnext
      · exact hold
      · exact absurd ⟨hnext, a, ha⟩ hnow
    rw [propext hasked]
    exact h

theorem reportsOf_runReader {r : State × List Effect × Progress} {i : Nat}
    (h : reportsIn i r.2.1 = []) (now : Moment) (k : Nat) (wait : Nat → Reader) :
    reportsOf i (w.runReader now k wait r).log = reportsOf i w.log := by
  obtain ⟨s, effects, answer | next⟩ := r
  · change reportsOf i (w.log ++ effects.map (.did now) ++ [Event.returned k answer]) = _
    rw [reportsOf_append, reportsOf_append, reportsOf_did, h, reportsOf_returned, List.append_nil,
      List.append_nil]
  · change reportsOf i (w.log ++ effects.map (.did now)) = _
    rw [reportsOf_append, reportsOf_did, h, List.append_nil]

/-- A leg of a reader that leaves the tasks alone. -/
theorem Tallied.runReader {r : State × List Effect × Progress} {i : Nat} {now : Moment} {k : Nat}
    {wait : Nat → Reader} (h : w.Tallied p i) (ht : Taken p w (w.runReader now k wait r))
    (hpresent : w.state ∈ w.past) (htasks : r.1.tasks = w.state.tasks)
    (hr : reportsIn i r.2.1 = []) : (w.runReader now k wait r).Tallied p i :=
  h.frame ht hpresent (by rw [state_runReader, htasks]) (by rw [points_runReader])
    (heardBy_runReader ..) (reportsOf_runReader hr ..)

/-- A chunk that was not claimed may be claimed now. -/
theorem Tallied.claimed {i : Nat} (h : w.Tallied p i) (ht : Taken p w w')
    (hpresent : w.state ∈ w.past) (hold : w.state.tasks[i]? = none)
    (hnew : w'.state.tasks[i]? = some .claimed) (hp : w.points i = none)
    (hpoints : w'.points i = w.points i) (hheard : heardBy i w'.log = heardBy i w.log)
    (htold : reportsOf i w'.log = reportsOf i w.log) : w'.Tallied p i := by
  have hasked : w'.asked i ↔ w.asked i := by
    refine ht.asked_iff hpresent fun a ha => ?_
    rw [hnew] at ha
    cases ha
  rw [Tallied, hold, hp] at h
  rw [Tallied, hheard, htold, hnew, hpoints, hp, propext hasked]
  exact h

/-- Before a task runs there is nothing on record of it. -/
theorem tallied_opened {i : Nat} (now : Moment)
    (htasks : opened.state.tasks[i]? = none ∨ opened.state.tasks[i]? = some .claimed)
    (htold : reportsIn i opened.effects = []) : (start now opened).Tallied p i := by
  have hno : ¬ (start now opened).asked i := by
    rintro ⟨s, hs, a, ha⟩
    obtain rfl := List.mem_singleton.1 hs
    rcases htasks with h | h <;> rw [h] at ha <;> cases ha
  have hheard : heardBy i (start now opened).log = [] := heardBy_did ..
  have hreports : reportsOf i (start now opened).log = [] := (reportsOf_did ..).trans htold
  rw [Tallied, hheard, hreports]
  change Tally p i _ _ _ opened.state.tasks[i]? none
  rcases htasks with h | h <;> rw [h] <;> exact ⟨hno, rfl, rfl⟩

theorem tallied_start (hcreate : create m config method = .ok (p, opened)) (now : Moment) (i : Nat) :
    (start now opened).Tallied p i := by
  obtain ⟨rfl, entry, rfl⟩ := create_eq hcreate
  refine tallied_opened now ?_ (fill_reports ..)
  rcases fill_claims (p := Setup.ofManifest m config method) (State.ofManifest m) i with h | ⟨-, h⟩
  · exact Or.inl h
  · exact Or.inr h

/-- A task hears an answer. -/
theorem Tallied.heard {i j : Nat} {signal : Signal} {l : Leg} {addition : Duration}
    (h : w.Tallied p j) (hsound : Consistent p w.state w.points w.broken w.payloads)
    (hpresent : w.state ∈ w.past) (now : Moment) (hp : w.points i = none)
    (hl : w.state.hear p addition i signal = some l) :
    ((w.hears i signal).runLeg now i l).Tallied p j := by
  by_cases hji : j = i
  · subst hji
    obtain ⟨phase, hph, -⟩ := State.hear_phase hl
    obtain ⟨d, hd⟩ := hsound.chunk hph
    rw [Tallied, hph, hp] at h
    refine Tallied.leg (.heard now hp hl) hpresent (hear_tally hph hd ?_ h hl)
      (fun a ha => Or.inl (hear_asks hl ha)) rfl (Function.update_self ..) ?_ ?_
    · rintro a rfl
      exact ⟨w.state, hpresent, a, hph⟩
    · rw [heardBy_runLeg, hears, heardBy_append, heardBy_self]
    · rw [log_runLeg, reportsOf_append, reportsOf_did, hears, reportsOf_append,
        reportsOf_heard, List.append_nil]
  · refine h.frame (.heard now hp hl) hpresent ((State.hear_quiet hl).tasks_ne hji)
      (Function.update_of_ne hji ..) ?_ ?_
    · rw [heardBy_runLeg, heardBy_hears_ne w signal hji]
    · rw [log_runLeg, reportsOf_append, reportsOf_did, hear_others hji hl, hears,
        reportsOf_append, reportsOf_heard, List.append_nil, List.append_nil]

/-- A task runs its next leg. -/
theorem Tallied.ran {i j : Nat} {pt : Point} (h : w.Tallied p j)
    (hsound : Consistent p w.state w.points w.broken w.payloads) (hpresent : w.state ∈ w.past)
    (hopen : w.state.closed = false) (now : Moment) (addition : Duration)
    (hp : w.points i = some pt) :
    (w.runLeg now i (w.state.leg p now addition i pt)).Tallied p j := by
  by_cases hji : j = i
  · subst hji
    obtain ⟨phase, hph, -⟩ := hsound.running hp
    obtain ⟨d, hd⟩ := hsound.chunk hph
    have hfit := hsound.fits hd
    rw [hph, hp] at hfit
    by_cases hpt : ∃ r, pt = .finish r
    · -- nothing is asked of the accounts of a task that ended
      obtain ⟨r, rfl⟩ := hpt
      rw [Tallied, state_runLeg, points_runLeg, Function.update_self]
      change Tally p j _ _ _ (w.state.complete now j r).state.tasks[j]? none
      rw [complete_tasks, phase_set hph]
      trivial
    · rw [Tallied, hph, hp] at h
      refine Tallied.leg (.ran now addition hp) hpresent
        (leg_tally hopen (not_exists.1 hpt) hph hd hfit h) (fun a ha => leg_asks ha) rfl
        (Function.update_self ..) (heardBy_runLeg ..) ?_
      rw [log_runLeg, reportsOf_append, reportsOf_did]
  · refine h.frame (.ran now addition hp) hpresent (leg_tasks_ne hji pt)
      (Function.update_of_ne hji ..) (heardBy_runLeg ..) ?_
    rw [log_runLeg, reportsOf_append, reportsOf_did, leg_others hji, List.append_nil]

/-- **While a provider is open, what is on record of a task is what its accounts say.** -/
theorem tallied_reachable (hcreate : create m config method = .ok (p, opened))
    (h : Reachable p opened w) : w.state.closed = false → ∀ i, w.Tallied p i := by
  refine h.keeps (P := fun w => w.state.closed = false → ∀ i, w.Tallied p i)
    (fun now _ => tallied_start hcreate now) ?_
  intro w w' hw ih htaken hopen' j
  have hopen := htaken.open hopen'
  have hsound := sound_reachable hcreate hw hopen
  have hpresent := present_reachable hw
  have hj := ih hopen j
  cases htaken with
  | heard now hp hl => exact hj.heard hsound hpresent now hp hl
  | ran now addition hp => exact hj.ran hsound hpresent hopen now addition hp
  | called now hk =>
      obtain ⟨store, held, current, hframe⟩ := State.moveOn_frame p w.state
      exact hj.runReader (.called now hk) hpresent (by rw [hframe]) (moveOn_reports ..)
  | filled now hk =>
      rcases fill_claims (p := p) w.state j with hsame | ⟨hold, hnew⟩
      · exact hj.frame (.filled now hk) hpresent hsame rfl (heardBy_runReader ..)
          (reportsOf_runReader (fill_reports ..) ..)
      · have hp : w.points j = none := by
          cases hp : w.points j with
          | none => rfl
          | some pt =>
              rw [List.getElem?_eq_getElem (hsound.pointed hp)] at hold
              cases hold
        exact hj.claimed (.filled now hk) hpresent hold hnew hp rfl (heardBy_runReader ..)
          (reportsOf_runReader (fill_reports ..) ..)
  | @looked k n now hk =>
      obtain ⟨current, surfaced, hframe⟩ := State.look_frame w.state now.elapsed n
      exact hj.runReader (.looked now hk) hpresent (by rw [hframe]) (look_reports ..)
  | abandoned hk => exact hj
  | closed now => exact absurd hopen' (not_open_of_close w now)

/-! ## Nothing happens to a task that is over -/

/-- The task of a chunk is at its end, and is not in the middle of a stretch. -/
structure Rested (w : World) (i : Nat) (phase : Phase) : Prop where
  still : phase.running = false
  task : w.state.tasks[i]? = some phase
  point : w.points i = none

/-- In an open provider a task that is over is not in the middle of a stretch. -/
theorem rested_of_over (hcreate : create m config method = .ok (p, opened))
    (hw : Reachable p opened w) (hopen : w.state.closed = false) {i : Nat} {phase : Phase}
    (hover : phase.running = false) (h : w.state.tasks[i]? = some phase) : w.Rested i phase := by
  refine ⟨hover, h, ?_⟩
  cases hp : w.points i with
  | none => rfl
  | some pt =>
      obtain ⟨phase', hph, hrunning⟩ := (sound_reachable hcreate hw hopen).running hp
      obtain rfl := Option.some.inj (h.symm.trans hph)
      cases hover.symm.trans hrunning

/-- An action that leaves a task alone that is over. -/
structure Spares (w w' : World) (i : Nat) (phase : Phase) : Prop where
  rested : w'.Rested i phase
  heard : heardBy i w'.log = heardBy i w.log
  told : reportsOf i w'.log = reportsOf i w.log

theorem Rested.runReader {i : Nat} {phase : Phase} (h : w.Rested i phase)
    {r : State × List Effect × Progress} (now : Moment) (k : Nat) (wait : Nat → Reader)
    (htasks : r.1.tasks[i]? = w.state.tasks[i]?) (hr : reportsIn i r.2.1 = []) :
    Spares w (w.runReader now k wait r) i phase := by
  refine ⟨⟨h.still, ?_, ?_⟩, heardBy_runReader .., reportsOf_runReader hr ..⟩
  · rw [state_runReader, htasks]; exact h.task
  · rw [points_runReader]; exact h.point

theorem hear_running {s : State} {addition : Duration} {i : Nat} {signal : Signal} {l : Leg}
    (h : s.hear p addition i signal = some l) :
    ∃ phase, s.tasks[i]? = some phase ∧ phase.running = true := by
  cases State.hear_hears h with
  | start ht | resolved ht | refreshed ht | unrefreshed ht | payload ht | asksAgain ht
  | asksNothing ht | triesAgain ht => exact ⟨_, ht, rfl⟩

/-- **No action touches the record of a task that is over.** -/
theorem Taken.spares (ht : Taken p w w') {i : Nat} {phase : Phase} (h : w.Rested i phase) :
    Spares w w' i phase := by
  cases ht with
  | @heard j signal l now addition hp hl =>
      have hij : i ≠ j := by
        rintro rfl
        obtain ⟨phase', hph, hrunning⟩ := hear_running hl
        obtain rfl := Option.some.inj (h.task.symm.trans hph)
        cases h.still.symm.trans hrunning
      refine ⟨⟨h.still, ?_, ?_⟩, ?_, ?_⟩
      · exact ((State.hear_quiet hl).tasks_ne hij).trans h.task
      · exact (Function.update_of_ne hij ..).trans h.point
      · rw [heardBy_runLeg, heardBy_hears_ne w signal hij]
      · rw [log_runLeg, reportsOf_append, reportsOf_did, hear_others hij hl, hears,
          reportsOf_append, reportsOf_heard, List.append_nil, List.append_nil]
  | @ran j pt now addition hp =>
      have hij : i ≠ j := by
        rintro rfl
        rw [h.point] at hp
        cases hp
      refine ⟨⟨h.still, ?_, ?_⟩, heardBy_runLeg .., ?_⟩
      · exact (leg_tasks_ne hij pt).trans h.task
      · exact (Function.update_of_ne hij ..).trans h.point
      · rw [log_runLeg, reportsOf_append, reportsOf_did, leg_others hij, List.append_nil]
  | called now hk =>
      obtain ⟨store, held, current, hframe⟩ := State.moveOn_frame p w.state
      exact h.runReader now _ _ (by rw [hframe]) (moveOn_reports ..)
  | filled now hk =>
      exact h.runReader now _ _ ((fill_tasks h.task).trans h.task.symm) (fill_reports ..)
  | @looked k n now hk =>
      obtain ⟨current, surfaced, hframe⟩ := State.look_frame w.state now.elapsed n
      exact h.runReader now _ _ (by rw [hframe]) (look_reports ..)
  | abandoned hk => exact ⟨⟨h.still, h.task, h.point⟩, rfl, rfl⟩
  | closed now =>
      refine ⟨⟨h.still, ?_, h.point⟩, ?_, ?_⟩
      · change w.state.close.state.tasks[i]? = _
        rw [close_tasks]
        exact h.task
      · exact (heardBy_append ..).trans (by rw [heardBy_did, List.append_nil])
      · exact (reportsOf_append ..).trans (by rw [reportsOf_did, close_reports, List.append_nil])

/-! ## Nothing happens to a chunk whose task ended -/

/-- An action that changes nothing of a chunk but that it may be consumed or released. -/
structure Passes (w w' : World) (i : Nat) : Prop extends Spares w w' i .ended where
  chunk : ∀ {d : Descriptor}, w.state.store.chunks[i]? = some d →
    ∃ d', w'.state.store.chunks[i]? = some d' ∧ Outlasts d d'

/-- The chunk of an ended task is settled, and no leg of another task touches it. -/
theorem leg_passes (hcreate : create m config method = .ok (p, opened)) (hw : Reachable p opened w)
    {i j : Nat} (h : w.Rested i .ended) {pt : Point} (hp : w.points j = some pt)
    (now : Moment) (addition : Duration) {d : Descriptor}
    (hd : w.state.store.chunks[i]? = some d) :
    (w.state.leg p now addition j pt).state.store.chunks[i]? = some d := by
  cases hc : w.state.closed with
  | true =>
      have hbarren : Barren w.state (w.state.leg p now addition j pt) :=
        (shut_reachable hcreate hw hc).leg pt
      obtain ⟨tasks, -, hs⟩ := hbarren.state
      rw [hs]
      exact hd
  | false =>
      have hsound := sound_reachable hcreate hw hc
      have hfit := hsound.fits hd
      rw [h.task] at hfit
      have hsettled : d.status.wantsLink = false := by
        rcases hfit.settled_of_ended with hs | hs | hs <;> rw [hs] <;> rfl
      by_cases hpt : ∃ r, pt = .finish r
      · obtain ⟨r, rfl⟩ := hpt
        exact (hsound.complete_keeps hc hp now).settled hd hsettled
      · exact (State.leg_quiet p w.state now addition j (not_exists.1 hpt)).settled hd hsettled

/-- **No action touches the record of a chunk whose task ended.** -/
theorem Taken.passes (hcreate : create m config method = .ok (p, opened))
    (hw : Reachable p opened w) (ht : Taken p w w') {i : Nat} (h : w.Rested i .ended) :
    Passes w w' i := by
  refine ⟨ht.spares h, fun {d} hd => ?_⟩
  have same : ∀ {s : State}, s.store = w.state.store →
      ∃ d', s.store.chunks[i]? = some d' ∧ Outlasts d d' :=
    fun hs => ⟨d, by rw [hs]; exact hd, .refl d⟩
  cases ht with
  | heard now hp hl =>
      obtain ⟨tasks, -, hstore⟩ := (barren_hear hl).state
      exact same (by rw [state_runLeg, hstore])
  | ran now addition hp => exact ⟨d, leg_passes hcreate hw h hp now addition hd, .refl d⟩
  | called now hk =>
      rw [state_runReader]
      cases hc : w.state.closed with
      | true => rw [moveOn_of_closed hc]; exact same rfl
      | false =>
          have hmoves := State.moveOn_moves hc (sound_reachable hcreate hw hc).size
          generalize w.state.moveOn p = r at hmoves
          cases hmoves with
          | again _ => exact same rfl
          | past effects _ hr _ => exact hr.outlasts hd
          | ahead effects _ hr _ => exact hr.outlasts hd
  | filled now hk => exact same (State.fill_store p w.state)
  | @looked k n now hk =>
      obtain ⟨current, surfaced, hframe⟩ := State.look_frame w.state now.elapsed n
      exact same (by rw [state_runReader, hframe])
  | abandoned hk => exact same rfl
  | closed now => exact close_outlasts w.state hd

theorem Sound.atWork (h : Sound p w) (hopen : w.state.closed = false) {i : Nat} {d : Descriptor}
    (hi : w.state.tasks[i]? ≠ some .ended) (hd : w.state.store.chunks[i]? = some d) :
    d.status.wantsLink = true := by
  rcases ((h hopen).fits hd).stands.cases with hwork | ⟨hended, -, -⟩
  · exact hwork
  · exact absurd hended hi

/-- **Until its task ended, a chunk was at work.** -/
theorem atWork_reachable (hcreate : create m config method = .ok (p, opened))
    (h : Reachable p opened w) : w.state.closed = false → ∀ {i : Nat} {status : ChunkStatus},
      w.state.tasks[i]? ≠ some .ended → w.became i status → status.wantsLink = true := by
  refine h.keeps (P := fun w => w.state.closed = false → ∀ {i : Nat} {status : ChunkStatus},
    w.state.tasks[i]? ≠ some .ended → w.became i status → status.wantsLink = true) ?_ ?_
  · rintro t hopen i status hi ⟨s, hs, d, hd, rfl⟩
    obtain rfl := List.mem_singleton.1 hs
    exact (sound_start hcreate t).atWork hopen hi hd
  · rintro w w' hw ih ht hopen' i status hi ⟨s, hs, d, hd, rfl⟩
    rcases ht.of_mem_past hs with rfl | hs
    · exact (sound_taken (sound_reachable hcreate hw) ht).atWork hopen' hi hd
    · have hopen := ht.open hopen'
      refine ih hopen (fun hended => hi ?_) ⟨s, hs, d, hd, rfl⟩
      exact (ht.spares (rested_of_over hcreate hw hopen rfl hended)).rested.task

/-! ## What is on record at the end -/

/-- How a task ended, as its last report and its chunk tell it. -/
inductive Verdict (w : World) (i : Nat) (r : TaskResult) (d : Descriptor) : ChunkEvent → Prop where
  | downloaded {dl : Download} (hr : r.result = .ok dl) (elapsed : Duration)
      (became : w.became i .downloaded) (never : ¬ w.became i .failed) :
      Verdict w i r d (.downloaded i dl.byteCount dl.rowCount r.attempts elapsed)
  | failed {e : FetchError} (elapsed : Duration) (he : d.error = some e)
      (retries : ∀ k n source, e = .chunkDownload k n source → k = i ∧ n = r.attempts - 1)
      (became : w.became i .failed) (never : ¬ w.became i .downloaded) :
      Verdict w i r d (.failed i (r.attempts - 1) elapsed e)

/-- **The accounts of a chunk whose task ended.** -/
structure Accounted (p : Setup) (w : World) (i : Nat) (answers : List (Except FetchError LinkTable))
    (outcomes : List (Except FetchError Download)) (told : List ChunkEvent) (last : ChunkEvent)
    (r : TaskResult) (d : Descriptor) : Prop where
  /-- The task made these attempts, each retry with the class and the wait decided for it. -/
  concludes : Concludes p i (w.asked i) (heardBy i w.log) told answers outcomes r
  /-- The retries on record are one less for each operation than its attempts. -/
  adds : Adds (w.asked i) told answers.length outcomes.length r.attempts
  /-- One more thing was reported: how the task ended. -/
  reports : reportsOf i w.log = told ++ [last]
  chunk : w.state.store.chunks[i]? = some d
  attempts : d.attempts = r.attempts
  retries : d.retries = r.attempts - 1
  verdict : Verdict w i r d last

variable {answers : List (Except FetchError LinkTable)}
  {outcomes : List (Except FetchError Download)} {told : List ChunkEvent} {last : ChunkEvent}
  {r : TaskResult} {d : Descriptor} {i : Nat}

theorem Taken.became (ht : Taken p w w') {status : ChunkStatus} (h : w.became i status) :
    w'.became i status := by
  obtain ⟨s, hs, d, hd, hstatus⟩ := h
  exact ⟨s, ht.mem_past hs, d, hd, hstatus⟩

/-- What passes a chunk by makes it neither downloaded nor failed. -/
theorem Passes.became_iff (hpass : Passes w w' i) (ht : Taken p w w') (hpresent : w.state ∈ w.past)
    (hd : w.state.store.chunks[i]? = some d) {status : ChunkStatus} (hc : status ≠ .consumed)
    (hr : status ≠ .released) : w'.became i status ↔ w.became i status := by
  refine ⟨?_, ht.became⟩
  rintro ⟨s, hs, d', hd', rfl⟩
  rcases ht.of_mem_past hs with rfl | hs
  · obtain ⟨d'', hd'', hout⟩ := hpass.chunk hd
    obtain rfl := Option.some.inj (hd''.symm.trans hd')
    rcases hout.status with hsame | hc' | hr'
    · exact ⟨w.state, hpresent, d, hd, hsame.symm⟩
    · exact absurd hc' hc
    · exact absurd hr' hr
  · exact ⟨s, hs, d', hd', rfl⟩

/-- **The accounts of a chunk whose task ended stay as they are.** -/
theorem Accounted.passes (h : Accounted p w i answers outcomes told last r d) (ht : Taken p w w')
    (hpresent : w.state ∈ w.past) (hpass : Passes w w' i) :
    ∃ d', Accounted p w' i answers outcomes told last r d' := by
  have hasked : w'.asked i ↔ w.asked i := by
    refine ht.asked_iff hpresent fun a ha => ?_
    rw [hpass.rested.task] at ha
    cases ha
  have hdown : w'.became i .downloaded ↔ w.became i .downloaded :=
    hpass.became_iff ht hpresent h.chunk nofun nofun
  have hfail : w'.became i .failed ↔ w.became i .failed :=
    hpass.became_iff ht hpresent h.chunk nofun nofun
  obtain ⟨d', hd', hout⟩ := hpass.chunk h.chunk
  refine ⟨d', ?_, ?_, hpass.told.trans h.reports, hd', hout.attempts.trans h.attempts,
    hout.retries.trans h.retries, ?_⟩
  · rw [propext hasked, hpass.heard]
    exact h.concludes
  · rw [propext hasked]
    exact h.adds
  · cases h.verdict with
    | downloaded hr elapsed became never =>
        exact .downloaded hr elapsed (hdown.2 became) fun hno => never (hfail.1 hno)
    | failed elapsed he retries became never =>
        exact .failed elapsed (hout.error.trans he) retries (hfail.2 became)
          fun hno => never (hdown.1 hno)

/-- The world after the last leg of a task. -/
def finished (p : Setup) (w : World) (now : Moment) (addition : Duration) (i : Nat)
    (r : TaskResult) : World :=
  w.runLeg now i (w.state.leg p now addition i (.finish r))

theorem state_finished (now : Moment) (addition : Duration) :
    (w.finished p now addition i r).state = (w.state.complete now i r).state := rfl

/-- A chunk becomes what its task's last leg makes it for the first time: it was at work before. -/
theorem became_finished (hcreate : create m config method = .ok (p, opened))
    (hw : Reachable p opened w) (hopen : w.state.closed = false)
    (hp : w.points i = some (.finish r)) (now : Moment) (addition : Duration)
    (hd : (w.finished p now addition i r).state.store.chunks[i]? = some d) :
    (w.finished p now addition i r).became i d.status
      ∧ ∀ {status : ChunkStatus}, status ≠ d.status → status.wantsLink = false →
        ¬ (w.finished p now addition i r).became i status := by
  refine ⟨⟨_, List.mem_cons_self, d, hd, rfl⟩, ?_⟩
  rintro status hne hwork ⟨s, hs, d', hd', rfl⟩
  have ht : Taken p w (w.finished p now addition i r) := .ran now addition hp
  rcases ht.of_mem_past hs with rfl | hs
  · rw [hd] at hd'
    exact hne (congrArg Descriptor.status (Option.some.inj hd')).symm
  · obtain ⟨phase, hph, hrunning⟩ := (sound_reachable hcreate hw hopen).running hp
    have hended : w.state.tasks[i]? ≠ some .ended := by
      rw [hph]
      exact fun h => Consistent.ne_ended_of_running hrunning (Option.some.inj h)
    have hyes := atWork_reachable hcreate hw hopen hended ⟨s, hs, d', hd', rfl⟩
    rw [hwork] at hyes
    cases hyes

/-- **The last leg of a task settles its accounts.** -/
theorem accounted_finished (hcreate : create m config method = .ok (p, opened))
    (hw : Reachable p opened w) (hopen : w.state.closed = false)
    (hp : w.points i = some (.finish r)) (now : Moment) (addition : Duration) :
    ∃ answers outcomes told last d,
      Accounted p (w.finished p now addition i r) i answers outcomes told last r d := by
  have hsound := sound_reachable hcreate hw hopen
  have ht : Taken p w (w.finished p now addition i r) := .ran now addition hp
  obtain ⟨phase, hph, -⟩ := hsound.running hp
  obtain ⟨d, hd⟩ := hsound.chunk hph
  have hfit := hsound.fits hd
  rw [hph, hp] at hfit
  have htally := tallied_reachable hcreate hw hopen i
  rw [Tallied, hph, hp] at htally
  obtain ⟨answers, outcomes, hconcludes⟩ := htally
  have hasked : (w.finished p now addition i r).asked i ↔ w.asked i := by
    refine ht.asked_iff (present_reachable hw) fun a ha => ?_
    rw [state_finished, complete_tasks, phase_set hph] at ha
    cases ha
  have hheard : heardBy i (w.finished p now addition i r).log = heardBy i w.log := heardBy_runLeg ..
  have hreports : reportsOf i (w.finished p now addition i r).log =
      reportsOf i w.log ++ [verdict d now i r] := by
    rw [finished, log_runLeg, reportsOf_append, reportsOf_did]
    change _ ++ reportsIn i (w.state.complete now i r).effects = _
    rw [complete_reports hopen hd, reportsIn_report (isFor_verdict ..), reportsIn_nil]
  obtain ⟨d', hd', hattempts, hretries, hend⟩ := complete_verdict hopen hd hfit now
  refine ⟨answers, outcomes, _, _, d', ?_, ?_, hreports, hd', hattempts, hretries, ?_⟩
  · rw [propext hasked, hheard]
    exact hconcludes
  · rw [propext hasked]
    exact hconcludes.adds
  · obtain ⟨hyes, hno⟩ := became_finished hcreate hw hopen hp now addition hd'
    rcases hend with ⟨dl, hr, hs, hv⟩ | ⟨e, hs, he, hretry, hv⟩
    · rw [hv]
      rw [hs] at hyes hno
      exact .downloaded hr now.elapsed hyes (hno nofun rfl)
    · rw [hv]
      rw [hs] at hyes hno
      exact .failed now.elapsed he hretry hyes (hno nofun rfl)

/-- The task of a chunk ended while the provider was open. -/
def endedOpen (w : World) (i : Nat) : Prop :=
  ∃ s ∈ w.past, s.closed = false ∧ s.tasks[i]? = some .ended

/-- Only the last leg of a task ends it. -/
theorem Taken.ends (ht : Taken p w w') (hopen' : w'.state.closed = false)
    (h : w'.state.tasks[i]? = some .ended) : w.state.tasks[i]? = some .ended
      ∨ ∃ now addition r, w.points i = some (.finish r)
        ∧ w' = w.finished p now addition i r := by
  have quiet : ∀ {j : Nat} {s : State}, Quiet j w.state s → s.tasks[i]? = some .ended →
      w.state.tasks[i]? = some .ended := by
    intro j s hq hs
    rcases hq.tasks with hsame | ⟨phase, hne, hset⟩
    · rw [hsame] at hs
      exact hs
    · by_cases hij : i = j
      · rw [hset, hij] at hs
        exact absurd (phase_of_set hs).symm hne
      · rw [hset, List.getElem?_set_ne (Ne.symm hij)] at hs
        exact hs
  cases ht with
  | heard now hp hl => exact Or.inl (quiet (State.hear_quiet hl) h)
  | @ran j pt now addition hp =>
      by_cases hpt : ∃ r, pt = .finish r
      · obtain ⟨r, rfl⟩ := hpt
        by_cases hij : i = j
        · subst hij
          exact Or.inr ⟨now, addition, r, hp, rfl⟩
        · have hsame : (w.state.leg p now addition j (.finish r)).state.tasks[i]? =
              w.state.tasks[i]? := leg_tasks_ne hij (.finish r)
          exact Or.inl (hsame.symm.trans h)
      · exact Or.inl (quiet (State.leg_quiet p w.state now addition j (not_exists.1 hpt)) h)
  | called now hk =>
      obtain ⟨store, held, current, hframe⟩ := State.moveOn_frame p w.state
      rw [state_runReader, hframe] at h
      exact Or.inl h
  | filled now hk =>
      rcases fill_claims (p := p) w.state i with hsame | ⟨-, hnew⟩
      · exact Or.inl (hsame.symm.trans h)
      · cases hnew.symm.trans h
  | @looked k n now hk =>
      obtain ⟨current, surfaced, hframe⟩ := State.look_frame w.state now.elapsed n
      rw [state_runReader, hframe] at h
      exact Or.inl h
  | abandoned hk => exact Or.inl h
  | closed now => exact absurd hopen' (not_open_of_close w now)

/-- **The accounts of every chunk whose task ended are in order**, whatever happened since. -/
theorem accounted_reachable (hcreate : create m config method = .ok (p, opened))
    (h : Reachable p opened w) {i : Nat} : w.endedOpen i → w.Rested i .ended ∧
      ∃ answers outcomes told last r d, Accounted p w i answers outcomes told last r d := by
  refine h.keeps (P := fun w => w.endedOpen i → w.Rested i .ended ∧
    ∃ answers outcomes told last r d, Accounted p w i answers outcomes told last r d) ?_ ?_
  · rintro now ⟨s, hs, -, hended⟩
    obtain rfl := List.mem_singleton.1 hs
    obtain ⟨rfl, entry, rfl⟩ := create_eq hcreate
    rcases fill_claims (p := Setup.ofManifest m config method) (State.ofManifest m) i
      with hsame | ⟨-, hnew⟩
    · cases hsame.symm.trans hended
    · cases hnew.symm.trans hended
  · intro w w' hw ih ht hended'
    have hpresent := present_reachable hw
    by_cases hended : w.endedOpen i
    · -- it had ended before: the action passes the chunk by
      obtain ⟨hrest, answers, outcomes, told, last, r, d, hacc⟩ := ih hended
      have hpass := ht.passes hcreate hw hrest
      obtain ⟨d', hacc'⟩ := hacc.passes ht hpresent hpass
      exact ⟨hpass.rested, answers, outcomes, told, last, r, d', hacc'⟩
    · -- it ends with this action, which is the last leg of the task
      obtain ⟨s, hs, hopen', htask⟩ := hended'
      rcases ht.of_mem_past hs with rfl | hs
      · have hopen := ht.open hopen'
        rcases ht.ends hopen' htask with hold | ⟨now, addition, r, hp, rfl⟩
        · exact absurd ⟨w.state, hpresent, hopen, hold⟩ hended
        · obtain ⟨answers, outcomes, told, last, d, hacc⟩ :=
            accounted_finished hcreate hw hopen hp now addition
          exact ⟨⟨rfl, htask, Function.update_self ..⟩, answers, outcomes, told, last, r, d, hacc⟩
      · exact absurd ⟨s, hs, hopen', htask⟩ hended

/-- The last report is the only one that tells how the task ended, and no retry. -/
theorem Verdict.isLast {w : World} (h : Verdict w i r d last) :
    last.isLast = true ∧ last.isRetry = false := by
  cases h <;> exact ⟨rfl, rfl⟩

/-- Exactly one report tells how the task ended. -/
theorem Accounted.lasts (h : Accounted p w i answers outcomes told last r d) :
    (reportsOf i w.log).filter ChunkEvent.isLast = [last] := by
  have hnone : told.filter ChunkEvent.isLast = [] :=
    List.filter_eq_nil_iff.2 (List.any_eq_false.1 h.adds.running)
  rw [h.reports, List.filter_append, hnone, List.filter_cons_of_pos h.verdict.isLast.1]
  rfl

/-- The retries on record are those of the two operations. -/
theorem Accounted.retried (h : Accounted p w i answers outcomes told last r d) :
    (reportsOf i w.log).countP ChunkEvent.isRetry =
      (answers.length - 1) + (outcomes.length - 1) := by
  rw [h.reports, List.countP_append, h.adds.retries, List.countP_singleton, h.verdict.isLast.2]
  rfl

end World

end ResultChunks.Provider
