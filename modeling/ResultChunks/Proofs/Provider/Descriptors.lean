import ResultChunks.Proofs.Provider.Delivery

/-!
# What the descriptors of an open provider say

Status, link, batches and error of a chunk, the list of tasks in flight and the pointer to the next
claim are written by different legs. While the provider is open they never contradict each other:
the pointer and the statuses alone say which tasks are in flight, and the status alone says what a
descriptor holds. So whoever reads a descriptor finds what its status promises. The task that
downloads again finds a link, and a single reader finds the batches of its chunk or its error.

That each chunk is claimed once needs no invariant of the descriptors: only a claim starts a task,
and it starts that of the next chunk.
-/

namespace ResultChunks.Provider

/-! ## Which tasks were started -/

/-- The chunk whose task an effect starts. -/
@[simp] def Effect.starts : Effect → Option Nat
  | .spawn i => some i
  | _ => none

/-- The tasks that effects start, in order. -/
def startsIn (effects : List Effect) : List Nat := effects.filterMap Effect.starts

/-- The tasks that were started, in order. -/
def started (log : List Event) : List Nat :=
  log.filterMap fun
    | .did _ effect => effect.starts
    | _ => none

@[simp] theorem startsIn_nil : startsIn [] = [] := rfl

@[simp] theorem startsIn_cons (effect : Effect) (effects : List Effect) :
    startsIn (effect :: effects) = effect.starts.toList ++ startsIn effects := by
  cases h : effect.starts with
  | none => exact List.filterMap_cons_none h
  | some i => exact List.filterMap_cons_some h

@[simp] theorem startsIn_append (effects more : List Effect) :
    startsIn (effects ++ more) = startsIn effects ++ startsIn more := List.filterMap_append

@[simp] theorem startsIn_notes (entries : List Log.Entry) : startsIn (notes entries) = [] := by
  rw [startsIn, notes, List.filterMap_map]
  exact List.filterMap_eq_nil_iff.2 fun _ _ => rfl

/-- What only tells starts no task. -/
theorem startsIn_of_tells {effects : List Effect} (h : effects.all Effect.tells = true) :
    startsIn effects = [] := by
  refine List.filterMap_eq_nil_iff.2 fun effect he => ?_
  have htells := List.all_eq_true.1 h effect he
  cases effect with
  | report | wake | note => rfl
  | spawn | askLinks | download | sleep => cases htells

@[simp] theorem started_append (log more : List Event) :
    started (log ++ more) = started log ++ started more := List.filterMap_append

@[simp] theorem started_did (now : Moment) (effects : List Effect) :
    started (effects.map (.did now)) = startsIn effects := by
  rw [started, List.filterMap_map]
  rfl

@[simp] theorem started_heard (i : Nat) (signal : Signal) : started [.heard i signal] = [] := rfl

@[simp] theorem started_returned (k : Nat) (answer : Answer) :
    started [.returned k answer] = [] := rfl

section

variable {p : Setup} {s : State} {now : Moment} {addition : Duration} {i : Nat}

theorem settleAttempt_starts (a : Retry.Account) (result : Except FetchError Download) :
    startsIn (s.settleAttempt p addition i a result).effects = [] := by
  unfold State.settleAttempt
  rcases Retry.settle p.config.retry .get addition a result with _ | ⟨o⟩ | ⟨cls, delay, b⟩ <;> simp

theorem settleLinks_starts (a : Retry.Account) (result : Except FetchError LinkTable) :
    startsIn (s.settleLinks p addition i a result).effects = [] := by
  unfold State.settleLinks
  rcases Retry.settle p.config.retry p.resolverMethod addition a result with
    _ | ⟨r, n, waited⟩ | ⟨cls, delay, b⟩
  · simp
  · cases r <;> simp [State.giveUp]
  · simp

theorem applyLinks_starts {s' : State} {links : LinkTable} {effects : List Effect}
    {checked : Except FetchError Unit} (h : s.applyLinks i links = (s', effects, checked)) :
    startsIn effects = [] := by
  unfold State.applyLinks at h
  split at h <;> (obtain ⟨-, rfl, -⟩ := h; simp)

/-- **No leg of a task starts a task.** -/
theorem leg_starts (pt : Point) : startsIn (s.leg p now addition i pt).effects = [] := by
  have hruns := State.leg_runs p s now addition i pt
  generalize s.leg p now addition i pt = l at hruns
  cases hruns with
  | givesUp | overruns | linked | unlinked | asks | marked | begins | downloads | expired
  | refreshes | resumes => simp [State.giveUp]
  | fails | loses => simp [settleAttempt_starts]
  | applied ha | unapplied ha | renews ha => simp [State.giveUp, applyLinks_starts ha]
  | unrenewed ha => simp [settleAttempt_starts, applyLinks_starts ha]
  | finishes r => exact startsIn_of_tells (State.complete_tells s now i r)

/-- Nor does hearing an answer. -/
theorem hear_starts {signal : Signal} {l : Leg} (hl : s.hear p addition i signal = some l) :
    startsIn l.effects = [] := by
  cases State.hear_hears hl with
  | start | refreshed | asksAgain | asksNothing | triesAgain => rfl
  | resolved => exact settleLinks_starts _ _
  | unrefreshed | payload => exact settleAttempt_starts _ _

/-- **A fill starts the tasks of the chunks that it claims**, from the next one on. -/
theorem fill_starts (p : Setup) (s : State) :
    List.range s.next ++ startsIn (s.fill p).effects = List.range (s.fill p).state.next := by
  fun_induction State.fill p s with
  | case1 s hm ih =>
      have hclaimed : startsIn (s.claim p).effects = [s.next] := by simp [State.claim, note]
      have hnext : (s.claim p).state.next = s.next + 1 := List.length_append
      rw [hnext, List.range_succ] at ih
      rw [Move.effects_after, startsIn_append, hclaimed, ← List.append_assoc]
      exact ih
  | case2 s hm => exact List.append_nil _

end

namespace World

variable {p : Setup} {w w' : World} {m : Manifest} {config : FetchConfig} {method : Method}
  {opened : Move}

theorem started_runReader (now : Moment) (k : Nat) (wait : Nat → Reader)
    (r : State × List Effect × Progress) :
    started (w.runReader now k wait r).log = started w.log ++ startsIn r.2.1 := by
  obtain ⟨s, effects, _ | _⟩ := r
  · simp [runReader]
  · simp [runReader, move]

/-- A leg of a call that only tells starts no task. -/
theorem started_runReader_of_tells (now : Moment) (k : Nat) (wait : Nat → Reader)
    {r : State × List Effect × Progress} (h : r.2.1.all Effect.tells = true) :
    started (w.runReader now k wait r).log = started w.log := by
  rw [started_runReader, startsIn_of_tells h, List.append_nil]

/-- **The claimed chunks were started once each, in order**, also in a provider that is closed. -/
theorem started_reachable (hcreate : create m config method = .ok (p, opened))
    (h : Reachable p opened w) : started w.log = List.range w.state.next := by
  refine h.keeps (P := fun w => started w.log = List.range w.state.next) ?_ ?_
  · intro now
    obtain ⟨rfl, entry, rfl⟩ := create_eq hcreate
    have hfill := fill_starts (Setup.ofManifest m config method) (State.ofManifest m)
    rw [State.next, State.ofManifest, List.length_nil, List.range_zero, List.nil_append] at hfill
    rw [start, started_did]
    exact hfill
  · intro w w' _ ih htaken
    -- a leg that starts no task and claims no chunk
    have leg : ∀ {v : World} (now : Moment) (i : Nat) {l : Leg}, started v.log = started w.log →
        startsIn l.effects = [] → l.state.next = w.state.next →
        started (v.runLeg now i l).log = List.range (v.runLeg now i l).state.next := by
      intro v now i l hlog hl hnext
      rw [log_runLeg, started_append, started_did, hl, List.append_nil, hlog, ih, state_runLeg,
        hnext]
    cases htaken with
    | heard now hp hl =>
        exact leg now _ (by simp [hears]) (hear_starts hl) (State.hear_quiet hl).next
    | ran now addition hp => exact leg now _ rfl (leg_starts _) (leg_next _ _ _ _ _)
    | called now hk =>
        obtain ⟨store, held, current, hframe⟩ := State.moveOn_frame p w.state
        rw [started_runReader_of_tells _ _ _ (State.moveOn_tells p w.state), ih, state_runReader,
          hframe]
        rfl
    | filled now hk =>
        rw [started_runReader, state_runReader, ih]
        exact fill_starts p w.state
    | @looked k n now hk =>
        obtain ⟨current, surfaced, hframe⟩ := State.look_frame w.state now.elapsed n
        rw [started_runReader_of_tells _ _ _ (State.look_tells ..), ih, state_runReader, hframe]
        rfl
    | abandoned hk => exact ih
    | closed now =>
        change started (w.log ++ _) = List.range w.state.close.state.tasks.length
        rw [started_append, started_did, startsIn_of_tells (State.close_tells _), List.append_nil,
          ih, close_tasks]
        rfl

end World

/-! ## What a status promises -/

/-- **The descriptors of an open provider, its tasks in flight and its next claim agree.** -/
structure Described (s : State) : Prop where
  /-- No task is in flight twice. -/
  nodup : s.inFlight.Nodup
  /-- The tasks in flight are those of the claimed chunks that are at work. -/
  flight : ∀ i, i ∈ s.inFlight ↔ i < s.next ∧ ∃ d, s.store.chunks[i]? = some d
    ∧ d.status ∈ [.pending, .linkResolved, .downloading]
  /-- A chunk that is not claimed is pending. -/
  ahead : ∀ (i : Nat) (d : Descriptor), s.store.chunks[i]? = some d → s.next ≤ i →
    d.status = .pending
  batches : ∀ (i : Nat) (d : Descriptor), s.store.chunks[i]? = some d →
    (d.batches.isSome ↔ d.status = .downloaded)
  error : ∀ (i : Nat) (d : Descriptor), s.store.chunks[i]? = some d →
    (d.error.isSome ↔ d.status = .failed)
  /-- Past `pending` a chunk has a link, unless it failed. -/
  linked : ∀ (i : Nat) (d : Descriptor), s.store.chunks[i]? = some d →
    d.status ∈ [.linkResolved, .downloading, .downloaded, .consumed] → d.link.isSome

/-- What a look may find: the batches of the chunk, its error, or that the chunk is at work. -/
inductive Finds (i : Nat) (d : Descriptor) : Progress → Prop where
  | batches {bs : List Batch} (hs : d.status = .downloaded) (hb : d.batches = some bs) :
      Finds i d (.done (.ok (some ⟨i, d.rowOffset, d.rowCount, bs⟩)))
  | error {e : FetchError} (hs : d.status = .failed) (he : d.error = some e) :
      Finds i d (.done (.error e))
  | wait (hs : d.status ∈ [.pending, .linkResolved, .downloading]) : Finds i d (.waiting i)

theorem mem_of_wantsLink {st : ChunkStatus} :
    st ∈ [.pending, .linkResolved, .downloading] ↔ st.wantsLink = true := by
  cases st <;> decide

theorem mem_of_hasLink {st : ChunkStatus} :
    st ∈ [.linkResolved, .downloading, .downloaded, .consumed] ↔ st.hasLink = true := by
  cases st <;> decide

namespace Consistent

variable {p : Setup} {s : State} {points : Nat → Option Point} {broken : Nat → Bool}
  {payloads : Nat → List Download} {i : Nat} {d : Descriptor}

/-- A task is in flight exactly while its claimed chunk is at work. -/
theorem mem_inFlight_iff (h : Consistent p s points broken payloads) :
    i ∈ s.inFlight ↔ i < s.next ∧ ∃ d, s.store.chunks[i]? = some d ∧ d.status.wantsLink = true := by
  rw [h.flight]
  constructor
  · rintro ⟨phase, hph, hne⟩
    obtain ⟨d, hd⟩ := h.chunk hph
    refine ⟨State.lt_next hph, d, hd, ?_⟩
    rcases (h.fits hd).stands.cases with hw | ⟨hended, -, -⟩
    · exact hw
    · rw [hph] at hended
      exact absurd (Option.some.inj hended) hne
  · rintro ⟨hlt, d, hd, hw⟩
    have hph : s.tasks[i]? = some s.tasks[i] := List.getElem?_eq_getElem hlt
    refine ⟨_, hph, ?_⟩
    intro hended
    have hfit := h.fits hd
    rw [hph, hended] at hfit
    rcases hfit.settled_of_ended with hs | hs | hs <;> (rw [hs] at hw; cases hw)

/-- A chunk that is not claimed is pending. -/
theorem pending_of_ahead (h : Consistent p s points broken payloads)
    (hd : s.store.chunks[i]? = some d) (hi : s.next ≤ i) : d.status = .pending := by
  have hst := (h.fits hd).stands
  rw [List.getElem?_eq_none hi] at hst
  cases hp : points i with
  | none =>
      rw [hp] at hst
      exact hst.1
  | some pt => exact absurd (h.pointed hp) (Nat.not_lt_of_le hi)

theorem described (h : Consistent p s points broken payloads) : Described s where
  nodup := h.nodup
  flight := by
    intro i
    simp only [mem_of_wantsLink]
    exact h.mem_inFlight_iff
  ahead := fun _ _ hd hi => h.pending_of_ahead hd hi
  batches := fun _ _ hd => (h.fits hd).batches
  error := fun _ _ hd => (h.fits hd).error
  linked := fun _ _ hd hs => (h.fits hd).linked (mem_of_hasLink.1 hs)

/-- **A task that goes back to downloading finds a link.** -/
theorem resume_downloads (h : Consistent p s points broken payloads) {a : Retry.Account}
    (hp : points i = some (.resume a)) :
    ∃ d link, s.store.chunks[i]? = some d ∧ d.link = some link ∧ ∀ now addition,
      (s.leg p now addition i (.resume a)).state.tasks[i]? = some (.downloading a)
        ∧ .download i link ∈ (s.leg p now addition i (.resume a)).effects := by
  obtain ⟨phase, hph, -⟩ := h.running hp
  obtain ⟨d, hd⟩ := h.chunk hph
  have hfit := h.fits hd
  rw [hph, hp] at hfit
  have hs : d.status = .linkResolved := hfit.stands.2.1
  obtain ⟨link, hlink⟩ := Option.isSome_iff_exists.1 (hfit.linked (by rw [hs]; rfl))
  refine ⟨d, link, hd, hlink, fun now addition => ?_⟩
  rw [State.leg, State.resumeLeg_eq hd hs hlink]
  exact ⟨phase_set hph _, List.mem_append_right _ (List.mem_singleton_self _)⟩

end Consistent

namespace World

variable {p : Setup} {w : World} {m : Manifest} {config : FetchConfig} {method : Method}
  {opened : Move}

/-- **A single reader finds what it looks for, or waits.** -/
theorem look_finds (hcreate : create m config method = .ok (p, opened))
    (hw : SoloReachable p opened w) (hopen : w.state.closed = false) {r n : Nat}
    (hr : w.readers r = some (.look n)) :
    ∃ d, w.state.store.chunks[n]? = some d
      ∧ ∀ waited, Finds n d (w.state.look waited n).2.2 := by
  have hsound := sound_reachable hcreate hw.reachable hopen
  have hreads := (reads_reachable hcreate hw).2 hopen
  obtain ⟨rfl, -⟩ := hreads.stage_of_looking hr
  obtain ⟨-, hlt, -⟩ := hreads.waits hr
  obtain ⟨d, hd⟩ := Store.exists_chunk (s := w.state.store) (by rw [hsound.size]; exact hlt)
  have hfit := hsound.fits hd
  refine ⟨d, hd, fun waited => ?_⟩
  have hlooks := State.look_looks hopen hd waited
  generalize w.state.look waited (handles w.log).length = x at hlooks
  cases hlooks with
  | found effects hs =>
      obtain ⟨bs, hb⟩ := Option.isSome_iff_exists.1 (hfit.batches.2 hs)
      have hhandle : State.handleOf (handles w.log).length d =
          ⟨(handles w.log).length, d.rowOffset, d.rowCount, bs⟩ := by rw [State.handleOf, hb]; rfl
      rw [hhandle]
      exact .batches hs hb
  | failed hs =>
      obtain ⟨e, he⟩ := Option.isSome_iff_exists.1 (hfit.error.2 hs)
      have hfailure : State.failureOf (handles w.log).length d = e := by
        rw [State.failureOf, he]
        rfl
      rw [hfailure]
      exact .error hs he
  | gone hs =>
      -- the chunk was not handed out yet, so it is not consumed, and nothing is released
      rcases hs with hs | hs
      · exact absurd (hreads.consumed hd hs) (Nat.lt_irrefl _)
      · exact absurd hs hfit.ne_released
  | wait hs => exact .wait (mem_of_wantsLink.2 hs)

end World

/-- **The descriptors of an open provider never contradict each other.** Each claimed chunk was
started once, in order, whatever happened. While the provider is open:

* the tasks in flight, the next claim, the statuses and what the descriptors hold agree;
* a task that goes back to downloading finds a link and downloads with it;
* if there is a single reader, its look finds the batches of a downloaded chunk, the error of a
  failed one, or a chunk at work. -/
theorem descriptors_agree {m : Manifest} {config : FetchConfig} {method : Method} {p : Setup}
    {opened : Move} {w : World} (hcreate : create m config method = .ok (p, opened))
    (hw : World.Reachable p opened w) :
    started w.log = List.range w.state.next
      ∧ (w.state.closed = false →
        Described w.state
          ∧ (∀ i a, w.points i = some (.resume a) →
              ∃ d link, w.state.store.chunks[i]? = some d ∧ d.link = some link ∧ ∀ now addition,
                (w.state.leg p now addition i (.resume a)).state.tasks[i]? = some (.downloading a)
                  ∧ .download i link ∈ (w.state.leg p now addition i (.resume a)).effects)
          ∧ (World.SoloReachable p opened w → ∀ r n, w.readers r = some (.look n) →
              ∃ d, w.state.store.chunks[n]? = some d
                ∧ ∀ waited, Finds n d (w.state.look waited n).2.2)) := by
  refine ⟨World.started_reachable hcreate hw, fun hopen => ?_⟩
  have hsound := World.sound_reachable hcreate hw hopen
  refine ⟨hsound.described, fun i a hp => hsound.resume_downloads hp, ?_⟩
  intro hsolo r n hr
  exact World.look_finds hcreate hsolo hopen hr

namespace Sample

/-- A call waits for chunk 0, whose task was answered with no link and then,
in the middle of the attempt, with one that can be used. -/
def refreshed : List Tick :=
  stretch 0 .start 2 ++ stretch 0 (.links (.ok [])) 5 ++ advancing dawn ++
  stretch 0 (.links (.ok [(0, linkUntil 100 0)])) 1

/-- The account of a task that goes back to downloading. -/
def resuming : Option Point → Option Retry.Account
  | some (.resume a) => some a
  | _ => none

theorem eq_of_resuming {o : Option Point} {a : Retry.Account} (h : resuming o = some a) :
    o = some (.resume a) := by
  unfold resuming at h
  split at h
  · obtain rfl := Option.some.inj h
    rfl
  · cases h

end Sample

/-- The task of chunk 0 downloads with the new link, and the call waits for it. -/
theorem descriptors_agree_refreshed :
    ∃ w a, World.SoloReachable (Sample.opened Sample.staleLinks).1
        (Sample.opened Sample.staleLinks).2 w
      ∧ started w.log = [0, 1] ∧ 0 ∈ w.state.inFlight
      ∧ w.points 0 = some (.resume a)
      ∧ .download 0 (Sample.linkUntil 100 0) ∈ (w.state.leg
          (Sample.opened Sample.staleLinks).1 Sample.dawn .zero 0
          (.resume a)).effects
      ∧ (w.state.look .zero 0).2.2 = .waiting 0 := by
  obtain ⟨w, hw, hopen, hreader, hnext, hpoint, hchunk⟩ : ∃ w,
      World.SoloReachable (Sample.opened Sample.staleLinks).1
          (Sample.opened Sample.staleLinks).2 w
        ∧ w.state.closed = false ∧ w.readers 0 = some (.look 0) ∧ w.state.next = 2
        ∧ (Sample.resuming (w.points 0)).isSome = true
        ∧ w.state.store.chunks[0]?.map (fun d => (d.status, d.link)) =
            some (.linkResolved, some (Sample.linkUntil 100 0)) :=
    World.exists_soloReachable Sample.dawn Sample.refreshed (by decide) (by decide +kernel)
  obtain ⟨a, ha⟩ := Option.isSome_iff_exists.1 hpoint
  have hresume := Sample.eq_of_resuming ha
  obtain ⟨hstarted, hagree⟩ :=
    descriptors_agree (Sample.create_opened Sample.staleLinks) hw.reachable
  obtain ⟨hdescribed, hresumes, hlooks⟩ := hagree hopen
  obtain ⟨d, hd, hdl⟩ := Option.map_eq_some_iff.1 hchunk
  obtain ⟨hs, hl⟩ := Prod.mk.inj hdl
  refine ⟨w, a, hw, ?_, ?_, hresume, ?_, ?_⟩
  · rw [hstarted, hnext]
    rfl
  · exact (hdescribed.flight 0).2 ⟨by omega, d, hd, by rw [hs]; decide⟩
  · obtain ⟨d', link, hd', hlink, hleg⟩ := hresumes 0 a hresume
    rw [hd] at hd'
    obtain rfl := Option.some.inj hd'
    rw [hl] at hlink
    obtain rfl := Option.some.inj hlink
    exact (hleg Sample.dawn .zero).2
  · obtain ⟨d', hd', hfinds⟩ := hlooks hw 0 0 hreader
    rw [hd] at hd'
    obtain rfl := Option.some.inj hd'
    have hfind := hfinds .zero
    generalize (w.state.look .zero 0).2.2 = x at hfind ⊢
    cases hfind with
    | batches hdown _ => rw [hs] at hdown; cases hdown
    | error hfailed _ => rw [hs] at hfailed; cases hfailed
    | wait _ => rfl

end ResultChunks.Provider
