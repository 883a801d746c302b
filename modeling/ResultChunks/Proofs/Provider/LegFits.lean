import ResultChunks.Proofs.Provider.Standing

/-!
# A leg leaves its chunk where it belongs

For each leg of an open provider: if the chunk fits the point that the leg starts from, then it fits
the point that the leg leads to. So no leg but the last ever asks for a change of status that is
refused, and none of the errors that stand for lost links or vanished chunks comes about.
-/

namespace ResultChunks.Provider

variable {p : Setup} {s : State} {now : Moment} {addition : Duration} {i : Nat} {phase : Phase}
  {broken : Bool} {payloads : List Download} {d : Descriptor}

/-- The chunk of a leg's task fits where the leg ends. -/
def LegFits (i : Nat) (broken : Bool) (payloads : List Download) (l : Leg) : Prop :=
  ∃ d phase, l.state.store.chunks[i]? = some d ∧ l.state.tasks[i]? = some phase
    ∧ Fits i (some phase) l.next broken payloads d

theorem LegFits.after {l : Leg} (h : LegFits i broken payloads l) (effects : List Effect) :
    LegFits i broken payloads (l.after effects) := h

theorem phase_set {tasks : List Phase} (ht : tasks[i]? = some phase) (next : Phase) :
    (tasks.set i next)[i]? = some next :=
  List.getElem?_set_self (List.getElem?_eq_some_iff.1 ht).1

theorem State.linkRequest_eq (hd : s.store.chunks[i]? = some d) :
    s.linkRequest i = .ok ⟨i, d.rowOffset⟩ := by
  rw [linkRequest, Store.get_eq_ok hd]
  rfl

/-- A task that goes back to downloading does so with the link that is stored. -/
theorem State.resumeLeg_eq (hd : s.store.chunks[i]? = some d) (hs : d.status = .linkResolved)
    {l : Link} (hl : d.link = some l) (a : Retry.Account) :
    s.resumeLeg p addition i a =
      ⟨State.setPhase { s with
          store := ⟨s.store.chunks.set i { d with status := .downloading }⟩ } i (.downloading a),
        notes (s.store.moveLogOf i .downloading) ++ [.download i l], none⟩ := by
  have hset := Store.chunk_set_self hd { d with status := .downloading }
  have hgot : (Except.ok { d with status := .downloading } : Except FetchError Descriptor).map
      Descriptor.link = .ok (some l) := congrArg Except.ok hl
  rw [resumeLeg, Store.move_eq hd (by rw [hs]; rfl)]
  dsimp only
  rw [Store.get_eq_ok hset, hgot]

/-- A chunk at work fits the next point of its task if that allows its status. -/
theorem AtWork.goesOn (h : AtWork payloads d) (hr : phase.running = true) {pt : Point}
    (hs : pt.Stands broken d.status) (hm : ∀ n, pt = .mark n → d.link.isSome = true)
    (hp : pt.bringsPayload = false) : Fits i (some phase) (some pt) broken payloads d :=
  h.fits ⟨hr, hs⟩ (fun n hn => hm n (Option.some.inj hn))
    (fun _ hpt => (Option.some.inj hpt) ▸ hp)

/-- A chunk at work fits a task that waits if that allows its status. -/
theorem AtWork.waits (h : AtWork payloads d) (hs : phase.Stands broken d.status) :
    Fits i (some phase) none broken payloads d := h.fits hs nofun nofun

/-- A task may end with an error whatever its chunk was at work with. -/
theorem fits_giveUp (ht : s.tasks[i]? = some phase) (hr : phase.running = true)
    (hd : s.store.chunks[i]? = some d) (h : AtWork payloads d) (e : FetchError) (n : Nat) :
    LegFits i broken payloads (s.giveUp e n) :=
  ⟨d, phase, hd, ht, h.goesOn hr h.wants nofun rfl⟩

/-- A failed attempt at the payload leaves the chunk in the status of a download. -/
theorem fits_settleAttempt (ht : s.tasks[i]? = some phase) (hr : phase.running = true)
    (hd : s.store.chunks[i]? = some d) (h : AtWork payloads d)
    (hs : d.status = downloadStatus broken) (a : Retry.Account) (e : FetchError) :
    LegFits i broken payloads (s.settleAttempt p addition i a (.error e)) := by
  obtain ⟨effects, e', n, hl⟩ | ⟨effects, next, hl, hnext⟩ :=
    State.settleAttempt_error p s addition i a e
  · rw [hl]
    exact fits_giveUp ht hr hd h e' n
  · rw [hl]
    refine ⟨d, next, hd, phase_set ht next, h.waits ?_⟩
    rcases hnext with rfl | ⟨b, rfl⟩
    · exact h.wants
    · exact hs

/-- A failed question for the first link leaves the chunk pending. -/
theorem fits_settleLinks (ht : s.tasks[i]? = some phase) (hr : phase.running = true)
    (hd : s.store.chunks[i]? = some d) (h : AtWork payloads d) (hs : d.status = .pending)
    (a : Retry.Account) (e : FetchError) :
    LegFits i broken payloads (s.settleLinks p addition i a (.error e)) := by
  obtain ⟨effects, e', n, hl⟩ | ⟨effects, next, hl, hnext⟩ :=
    State.settleLinks_error p s addition i a e
  · rw [hl]
    exact fits_giveUp ht hr hd h e' n
  · rw [hl]
    refine ⟨d, next, hd, phase_set ht next, h.waits ?_⟩
    rcases hnext with rfl | ⟨b, rfl⟩
    · exact h.wants
    · exact hs

/-! ## Leg by leg -/

section

variable (hc : s.closed = false) (ht : s.tasks[i]? = some phase) (hr : phase.running = true)
  (hd : s.store.chunks[i]? = some d) (h : AtWork payloads d)

include hc ht hr hd h

theorem fits_ensureLeg (hs : d.status = .pending) (hb : broken = false) :
    LegFits i broken payloads (s.ensureLeg p now i) := by
  rw [State.ensureLeg, if_neg (by simp [hc]), Store.get_eq_ok hd]
  dsimp only
  split
  · rename_i hf
    have hl : d.link.isSome = true := by
      unfold Descriptor.freshLink at hf
      cases hlink : d.link with
      | none => rw [hlink] at hf; cases hf
      | some l => rfl
    rw [Store.move_eq hd (by rw [hs]; rfl)]
    exact ⟨_, phase, Store.chunk_set_self hd _, ht,
      (h.withStatus rfl hl).goesOn hr ⟨rfl, hb⟩ (by simp) rfl⟩
  · exact ⟨d, phase, hd, ht, h.goesOn hr hs (by simp) rfl⟩

omit hr in
theorem fits_askLeg (hs : d.status = .pending) (request : LinkRequest) (a : Retry.Account) :
    LegFits i broken payloads (s.askLeg i request a) := by
  rw [State.askLeg, if_neg (by simp [hc])]
  split
  · exact ⟨d, _, hd, phase_set ht _, h.waits h.wants⟩
  · exact ⟨d, _, hd, phase_set ht _, h.waits hs⟩

theorem fits_applyLeg (hs : d.status = .pending) (hb : broken = false) (links : LinkTable)
    (attempts : Nat) : LegFits i broken payloads (s.applyLeg now i links attempts) := by
  obtain ⟨store, entries, o, ha, hrel, ho⟩ := State.applyLinks_eq links hc hd
  have hkeep : d.link.isSome = true → o.isSome = true := hrel.link_isSome hd ho
  by_cases hl : o.isSome = true
  · rw [State.applyLeg, ha, if_pos hl]
    exact ⟨_, phase, ho, ht, (h.relink hkeep).goesOn hr ⟨hs, hb⟩ (fun _ _ => hl) rfl⟩
  · -- the answer left the chunk without a link, so its task gives up
    rw [State.applyLeg, ha, if_neg hl]
    exact (fits_giveUp (s := { s with store }) ht hr ho (h.relink hkeep) _ _).after _

omit hc in
theorem fits_markLeg (hs : d.status = .pending) (hb : broken = false)
    (hl : d.link.isSome = true) (attempts : Nat) :
    LegFits i broken payloads (s.markLeg i attempts) := by
  rw [State.markLeg, Store.move_eq hd (by rw [hs]; rfl)]
  exact ⟨_, phase, Store.chunk_set_self hd _, ht,
    (h.withStatus rfl hl).goesOn hr ⟨rfl, hb⟩ (by simp) rfl⟩

theorem fits_beginLeg (hs : d.status = .linkResolved) (hb : broken = false) :
    LegFits i broken payloads (s.beginLeg i) := by
  have hl : d.link.isSome = true := h.linked (by rw [hs]; rfl)
  have hds : ChunkStatus.downloading = downloadStatus broken := by rw [hb]; rfl
  rw [State.beginLeg, if_neg (by simp [hc]), Store.move_eq hd (by rw [hs]; rfl)]
  exact ⟨_, phase, Store.chunk_set_self hd _, ht,
    (h.withStatus rfl hl).goesOn hr hds (by simp) rfl⟩

theorem fits_attemptLeg (hs : d.status = downloadStatus broken) (a : Retry.Account) :
    LegFits i broken payloads (s.attemptLeg p now addition i a) := by
  rw [State.attemptLeg, if_neg (by simp [hc]), Store.get_eq_ok hd]
  split
  · exact ⟨d, _, hd, phase_set ht _, h.waits h.wants⟩
  · dsimp only
    split
    · exact ⟨d, _, hd, phase_set ht _, h.waits hs⟩
    · exact ⟨d, phase, hd, ht, h.goesOn hr hs (by simp) rfl⟩

omit hc hr in
theorem fits_refreshLeg (hs : d.status = downloadStatus broken) (a : Retry.Account) :
    LegFits i broken payloads (s.refreshLeg p addition i a) := by
  have hl : d.link.isSome = true := h.linked (by rw [hs]; exact downloadStatus_hasLink broken)
  -- either status that a download can have leads back to `linkResolved`
  have hlead : d.status.leadsTo .linkResolved = true := by rw [hs]; cases broken <;> rfl
  rw [State.refreshLeg, State.linkRequest_eq hd, Store.move_eq hd hlead]
  exact ⟨_, _, Store.chunk_set_self hd _, phase_set ht _, (h.withStatus rfl hl).waits rfl⟩

theorem fits_applyRefreshedLeg (hs : d.status = .linkResolved) (hb : broken = false)
    (links : LinkTable) (a : Retry.Account) :
    LegFits i broken payloads (s.applyRefreshedLeg p addition i links a) := by
  have hl : d.link.isSome = true := h.linked (by rw [hs]; rfl)
  obtain ⟨store, entries, o, ha, hrel, ho⟩ := State.applyLinks_eq links hc hd
  have hkeep : d.link.isSome = true → o.isSome = true := hrel.link_isSome hd ho
  -- the chunk had a link before, so the answer cannot leave it without one
  rw [State.applyRefreshedLeg, ha, if_pos (hkeep hl)]
  exact ⟨_, phase, ho, ht, (h.relink hkeep).goesOn hr ⟨hs, hb⟩ (by simp) rfl⟩

omit hc hr in
theorem fits_resumeLeg (hs : d.status = .linkResolved) (hb : broken = false)
    (a : Retry.Account) : LegFits i broken payloads (s.resumeLeg p addition i a) := by
  have hl : d.link.isSome = true := h.linked (by rw [hs]; rfl)
  obtain ⟨l, hlink⟩ := Option.isSome_iff_exists.1 hl
  have hset := Store.chunk_set_self hd { d with status := .downloading }
  have hds : ChunkStatus.downloading = downloadStatus broken := by rw [hb]; rfl
  rw [State.resumeLeg_eq hd hs hlink]
  exact ⟨_, _, hset, phase_set ht _, (h.withStatus rfl hl).waits hds⟩

end

/-- **Each leg but the last takes a chunk that fits to a chunk that fits.** -/
theorem leg_fits (hc : s.closed = false) {pt : Point} (hpt : ∀ r, pt ≠ .finish r)
    (ht : s.tasks[i]? = some phase) (hd : s.store.chunks[i]? = some d)
    (h : Fits i (some phase) (some pt) broken payloads d) :
    LegFits i broken payloads (s.leg p now addition i pt) := by
  have hr : phase.running = true := h.stands.1
  have hst : pt.Stands broken d.status := h.stands.2
  have work : d.status.wantsLink = true → AtWork payloads d := by
    intro hw
    refine h.atWork hw ?_
    rintro pt' hpt'
    obtain rfl := Option.some.inj hpt'
    cases pt <;> first | rfl | exact absurd rfl (hpt _)
  cases pt with
  | ensure =>
      exact fits_ensureLeg hc ht hr hd (work (by rw [hst.1]; rfl)) hst.1 hst.2
  | ask request a =>
      have hs : d.status = .pending := hst
      exact fits_askLeg hc ht hd (work (by rw [hs]; rfl)) hs request a
  | apply links attempts =>
      exact fits_applyLeg hc ht hr hd (work (by rw [hst.1]; rfl)) hst.1 hst.2 links attempts
  | mark attempts =>
      exact fits_markLeg ht hr hd (work (by rw [hst.1]; rfl)) hst.1 hst.2
        (h.marked attempts rfl) attempts
  | begin =>
      exact fits_beginLeg hc ht hr hd (work (by rw [hst.1]; rfl)) hst.1 hst.2
  | attempt a =>
      have hs : d.status = downloadStatus broken := hst
      exact fits_attemptLeg hc ht hr hd (work (by rw [hs]; exact downloadStatus_wantsLink _)) hs a
  | refresh a =>
      have hs : d.status = downloadStatus broken := hst
      exact fits_refreshLeg ht hd (work (by rw [hs]; exact downloadStatus_wantsLink _)) hs a
  | applyRefreshed links a =>
      exact fits_applyRefreshedLeg hc ht hr hd (work (by rw [hst.1]; rfl)) hst.1 hst.2 links a
  | resume a =>
      exact fits_resumeLeg ht hd (work (by rw [hst.1]; rfl)) hst.1 hst.2 a
  | finish r => exact absurd rfl (hpt r)

/-! ## Hearing an answer -/

/-- **What a task does with a signal takes a chunk that fits to one that fits.** -/
theorem hear_fits {signal : Signal} {l : Leg} (ht : s.tasks[i]? = some phase)
    (hd : s.store.chunks[i]? = some d) (h : Fits i (some phase) none broken payloads d)
    (hl : s.hear p addition i signal = some l) :
    LegFits i (signal.breaks broken) (payloads ++ signal.brings) l := by
  have work : d.status.wantsLink = true → AtWork (payloads ++ []) d := by
    intro hw
    rw [List.append_nil]
    exact h.atWork hw nofun
  have waiting : ∀ {next : Phase}, s.tasks[i]? = some next → phase = next := by
    intro next hn
    rw [ht] at hn
    exact Option.some.inj hn
  cases State.hear_hears hl with
  | start hn =>
      obtain rfl := waiting hn
      have hs : d.status = .pending ∧ broken = false := h.stands
      exact ⟨d, _, hd, ht, (work (by rw [hs.1]; rfl)).goesOn rfl hs nofun rfl⟩
  | @resolved a hn result =>
      obtain rfl := waiting hn
      have hs : d.status = .pending := h.stands
      have hw := work (by rw [hs]; rfl)
      cases result with
      | ok links =>
          rw [State.settleLinks_ok]
          exact ⟨d, _, hd, ht, hw.goesOn rfl ⟨hs, rfl⟩ nofun rfl⟩
      | error e => exact fits_settleLinks ht rfl hd hw hs a e
  | refreshed hn links =>
      obtain rfl := waiting hn
      have hs : d.status = .linkResolved := h.stands
      exact ⟨d, _, hd, ht, (work (by rw [hs]; rfl)).goesOn rfl ⟨hs, rfl⟩ nofun rfl⟩
  | @unrefreshed a hn e =>
      obtain rfl := waiting hn
      -- the chunk stays in `linkResolved`, and the task is broken from here on
      have hs : d.status = .linkResolved := h.stands
      have hs' : d.status = downloadStatus true := hs
      exact fits_settleAttempt ht rfl hd (work (by rw [hs]; rfl)) hs' a e
  | @payload a hn result =>
      obtain rfl := waiting hn
      have hs : d.status = downloadStatus broken := h.stands
      have hw := work (by rw [hs]; exact downloadStatus_wantsLink broken)
      cases result with
      | error e => exact fits_settleAttempt ht rfl hd hw hs a e
      | ok dl =>
          rw [State.settleAttempt_ok]
          have hnone : payloads = [] := by rw [← List.append_nil payloads]; exact hw.payloads
          refine ⟨d, _, hd, ht, { h with stands := ⟨rfl, hs⟩, marked := nofun, paid := ?_ }⟩
          rw [hnone]
          rfl
  | asksAgain hn hr =>
      obtain rfl := waiting hn
      have hs : d.status = .pending := h.stands
      exact ⟨d, _, hd, ht, (work (by rw [hs]; rfl)).goesOn rfl hs nofun rfl⟩
  | asksNothing hn hr =>
      -- the request is there as long as the chunk is
      rw [State.linkRequest_eq hd] at hr
      cases hr
  | triesAgain hn =>
      obtain rfl := waiting hn
      have hs : d.status = downloadStatus broken := h.stands
      exact ⟨d, _, hd, ht,
        (work (by rw [hs]; exact downloadStatus_wantsLink broken)).goesOn rfl hs nofun rfl⟩

/-! ## The last leg -/

namespace State

/-- The task of a chunk has ended and left this descriptor. -/
def endTask (s : State) (i : Nat) (d : Descriptor) : State :=
  { s with
    tasks := s.tasks.set i .ended
    inFlight := s.inFlight.erase i
    store := ⟨s.store.chunks.set i d⟩ }

/-- The state after a chunk was stored. -/
def stored (s : State) (i : Nat) (d : Descriptor) (n : Nat) (dl : Download) : State :=
  s.endTask i { d.countAttempts n with
    status := .downloaded, batches := some dl.batches, error := none }

/-- The state after a chunk failed. -/
def failed (s : State) (i : Nat) (d : Descriptor) (n : Nat) (e : FetchError) : State :=
  { s.endTask i { d.countAttempts n with status := .failed, batches := none, error := some e } with
    halted := true
    held := s.held - 1 }

theorem failChunk_state (now : Moment) (hd : s.store.chunks[i]? = some d)
    (hl : d.status.leadsTo .failed = true) (e : FetchError) (n : Nat) : (failChunk s now i e n).state =
      { s with
        store := ⟨s.store.chunks.set i
          { d.countAttempts n with status := .failed, batches := none, error := some e }⟩
        halted := true
        held := s.held - 1 } := by
  have hset := Store.chunk_set_self hd (d.countAttempts n)
  rw [failChunk, Store.change_eq hd, Store.setFailed_eq hset, if_pos (by exact hl)]
  simp only [List.set_set]

theorem complete_error (hc : s.closed = false) (hd : s.store.chunks[i]? = some d)
    (hl : d.status.leadsTo .failed = true) (e : FetchError) (n : Nat) :
    (s.complete now i ⟨.error e, n⟩).state = s.failed i d n (taskError i n e) := by
  rw [complete]
  dsimp only
  rw [if_neg (by rw [setPhase, hc]; simp)]
  rw [Move.state_andThen]
  exact failChunk_state (s := { s.setPhase i .ended with inFlight := s.inFlight.erase i }) now
    hd hl _ n

theorem complete_stored (hc : s.closed = false) (hd : s.store.chunks[i]? = some d)
    (hl : d.status.leadsTo .downloaded = true) (dl : Download) (n : Nat) :
    (s.complete now i ⟨.ok dl, n⟩).state = s.stored i d n dl := by
  have hset := Store.chunk_set_self hd (d.countAttempts n)
  rw [complete]
  dsimp only
  rw [if_neg (by rw [setPhase, hc]; simp), Move.state_andThen]
  dsimp only
  rw [storeChunk, setPhase, Store.change_eq hd, Store.setBatches_eq hset, if_pos (by exact hl)]
  simp only [List.set_set]
  rfl

theorem complete_refused (hc : s.closed = false) (hd : s.store.chunks[i]? = some d)
    (hl : d.status.leadsTo .downloaded = false) (hf : d.status.leadsTo .failed = true)
    (dl : Download) (n : Nat) : (s.complete now i ⟨.ok dl, n⟩).state =
      s.failed i d n (.invalidState (.noTransition i d.status .downloaded)) := by
  have hset := Store.chunk_set_self hd (d.countAttempts n)
  rw [complete]
  dsimp only
  rw [if_neg (by rw [setPhase, hc]; simp), Move.state_andThen]
  dsimp only
  rw [storeChunk, setPhase, Store.change_eq hd, Store.setBatches_eq hset,
    if_neg (by change ¬ d.status.leadsTo .downloaded = true; rw [hl]; simp)]
  dsimp only
  rw [Move.state_after, failChunk_state now hset (by exact hf)]
  simp only [List.set_set]
  rfl

end State

/-- **How a task ends.** The payload is stored, unless the task was broken when it arrived. In that
case, and when there is no payload, the chunk fails. -/
theorem complete_cases (now : Moment) {r : TaskResult} (hc : s.closed = false)
    (hd : s.store.chunks[i]? = some d)
    (h : Fits i (some phase) (some (.finish r)) broken payloads d) :
    (∃ dl, r.result = .ok dl ∧ broken = false
        ∧ (s.complete now i r).state = s.stored i d r.attempts dl)
      ∨ ∃ e, (s.complete now i r).state = s.failed i d r.attempts e
        ∧ ((∃ dl, r.result = .ok dl ∧ broken = true ∧ e = lostPayload i)
          ∨ ∃ e', r.result = .error e' ∧ e = State.taskError i r.attempts e') := by
  have hst := h.stands.2
  obtain ⟨result, n⟩ := r
  cases result with
  | error e' =>
      have hf : d.status.leadsTo .failed = true := by
        have hw : d.status.wantsLink = true := hst
        cases hs : d.status <;> rw [hs] at hw <;> first | rfl | exact nomatch hw
      exact Or.inr ⟨_, State.complete_error hc hd hf e' n, Or.inr ⟨e', rfl, rfl⟩⟩
  | ok dl =>
      have hs : d.status = downloadStatus broken := hst
      cases hb : broken with
      | false =>
          rw [hb] at hs
          exact Or.inl ⟨dl, rfl, rfl, State.complete_stored hc hd (by rw [hs]; rfl) dl n⟩
      | true =>
          rw [hb] at hs
          refine Or.inr ⟨lostPayload i, ?_, Or.inl ⟨dl, rfl, rfl, rfl⟩⟩
          rw [State.complete_refused hc hd (by rw [hs]; rfl) (by rw [hs]; rfl), hs]
          rfl

/-- **The last leg takes a chunk that fits to one that fits.** -/
theorem complete_fits {r : TaskResult} (hc : s.closed = false) (ht : s.tasks[i]? = some phase)
    (hd : s.store.chunks[i]? = some d)
    (h : Fits i (some phase) (some (.finish r)) broken payloads d) :
    LegFits i broken payloads (.last (s.complete now i r)) := by
  have hw := h.wantsLink_of_finish
  unfold LegFits
  change ∃ d' phase', (s.complete now i r).state.store.chunks[i]? = some d'
    ∧ (s.complete now i r).state.tasks[i]? = some phase'
    ∧ Fits i (some phase') none broken payloads d'
  rcases complete_cases now hc hd h with ⟨dl, hr, hb, hstate⟩ | ⟨e, hstate, hwhy⟩
  · obtain ⟨result, n⟩ := r
    obtain rfl : result = .ok dl := hr
    have hs : d.status = downloadStatus broken := h.stands.2
    rw [hstate]
    exact ⟨_, .ended, Store.chunk_set_self hd _, phase_set ht _, {
      stands := Or.inl rfl
      linked := fun _ => h.linked (by rw [hs]; exact downloadStatus_hasLink broken)
      marked := nofun
      batches := ⟨fun _ => rfl, fun _ => rfl⟩
      error := ⟨nofun, nofun⟩
      paid := ⟨dl, h.paid, rfl, hb⟩ }⟩
  · -- no payload arrived, or the only one was lost
    have hpaid : payloads = []
        ∨ ∃ dl, payloads = [dl] ∧ broken = true ∧ some e = some (lostPayload i) := by
      obtain ⟨result, n⟩ := r
      rcases hwhy with ⟨dl, hr, hb, rfl⟩ | ⟨e', hr, rfl⟩
      · obtain rfl : result = .ok dl := hr
        exact Or.inr ⟨dl, h.paid, hb, rfl⟩
      · obtain rfl : result = .error e' := hr
        refine Or.inl (h.atWork hw ?_).payloads
        rintro pt hpt
        obtain rfl := Option.some.inj hpt
        rfl
    rw [hstate]
    exact ⟨_, .ended, Store.chunk_set_self hd _, phase_set ht _, {
      stands := Or.inr (Or.inr rfl)
      linked := nofun
      marked := nofun
      batches := ⟨nofun, nofun⟩
      error := ⟨fun _ => rfl, fun _ => rfl⟩
      paid := hpaid }⟩

end ResultChunks.Provider
