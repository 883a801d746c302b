import ResultChunks.Proofs.Provider.Invariant
import ResultChunks.Proofs.Provider.Run

/-!
# What becomes of a payload

A leg asks the store for at most one change of status (`asks`). While the provider is open, all of
them are granted but one: a payload that arrives for a broken task is refused, and its chunk fails.
So a payload is kept exactly when the last answer that its task had to a question for links was not a
failure.

The other tasks decide whether a broken task gets as far as a payload. After a failed question its
chunk is back in `linkResolved`, and an attempt normally asks again, because the link has expired.
But a link that some other task's answer brings for the chunk is taken from the store as well, and
the download then begins without the step to `downloading`.
-/

namespace ResultChunks.Provider

variable {p : Setup} {s : State} {now : Moment} {addition : Duration} {i : Nat} {d : Descriptor}

/-! ## What a leg asks of the store -/

/-- The status that a leg asks for. -/
def State.asks (p : Setup) (s : State) (now : Moment) (i : Nat) : Point → Option ChunkStatus
  | .ensure =>
    match s.store.get i with
    | .ok d => if (d.freshLink now.wall p.config.expiryBuffer).isSome then some .linkResolved else none
    | .error _ => none
  | .mark _ | .refresh _ => some .linkResolved
  | .begin | .resume _ => some .downloading
  | .finish ⟨.ok _, _⟩ => some .downloaded
  | .finish ⟨.error _, _⟩ => some .failed
  | .ask _ _ | .apply _ _ | .attempt _ | .applyRefreshed _ _ => none

/-- A leg that asked for a change of status left its chunk with it. If the change was refused, the
chunk has the status it had, or the leg failed it for that. -/
def Answered (s' : State) (i : Nat) (d : Descriptor) : Option ChunkStatus → Prop
  | none => ∃ d', s'.store.chunks[i]? = some d' ∧ d'.status = d.status
  | some next => ∃ d', s'.store.chunks[i]? = some d' ∧
      if d.status.leadsTo next then d'.status = next
      else d'.status = d.status ∨ d'.status = .failed

theorem settleAttempt_store (p : Setup) (s : State) (addition : Duration) (i : Nat)
    (a : Retry.Account) (e : FetchError) :
    (s.settleAttempt p addition i a (.error e)).state.store = s.store := by
  rcases State.settleAttempt_error p s addition i a e with
    ⟨effects, e', n, h⟩ | ⟨effects, phase, h, -⟩
  · rw [h]
  · rw [h]; rfl

theorem answered_same {s' : State} (hd : s.store.chunks[i]? = some d) (h : s'.store = s.store) :
    Answered s' i d none := ⟨d, by rw [h]; exact hd, rfl⟩

theorem answered_granted {s' : State} {next : ChunkStatus} (hd : s.store.chunks[i]? = some d)
    (h : s'.store = ⟨s.store.chunks.set i { d with status := next }⟩)
    (hyes : d.status.leadsTo next = true) : Answered s' i d (some next) :=
  ⟨_, by rw [h]; exact Store.chunk_set_self hd _, by rw [if_pos hyes]⟩

theorem answered_refused {s' : State} {next : ChunkStatus} (hd : s.store.chunks[i]? = some d)
    (h : s'.store = s.store) (hno : ¬ d.status.leadsTo next = true) :
    Answered s' i d (some next) :=
  ⟨d, by rw [h]; exact hd, by rw [if_neg hno]; exact Or.inl rfl⟩

theorem move_refused (hd : s.store.chunks[i]? = some d) {next : ChunkStatus}
    (h : ¬ d.status.leadsTo next = true) :
    s.store.move i next = .error (.invalidState (.noTransition i d.status next)) := by
  rw [Store.move, Store.moveWith_eq hd, if_neg h]

/-- Links leave the status of a chunk alone. -/
theorem answered_links (hc : s.closed = false) (hd : s.store.chunks[i]? = some d)
    (links : LinkTable) : Answered (s.applyLinks i links).1 i d none := by
  obtain ⟨store, entries, o, ha, -, ho⟩ := State.applyLinks_eq links hc hd
  rw [ha]
  exact ⟨_, ho, rfl⟩

theorem answered_failChunk (now : Moment) (hd : s.store.chunks[i]? = some d) (e : FetchError)
    (n : Nat) : Answered (s.failChunk now i e n).state i d (some .failed) := by
  have hset := Store.chunk_set_self hd (d.countAttempts n)
  by_cases hl : d.status.leadsTo .failed = true
  · rw [State.failChunk_state now hd hl]
    exact ⟨_, Store.chunk_set_self hd _, by rw [if_pos hl]⟩
  · rw [State.failChunk, Store.change_eq hd, Store.setFailed_eq hset, if_neg (by exact hl)]
    exact ⟨_, hset, by rw [if_neg hl]; exact Or.inl rfl⟩

theorem answered_storeChunk (now : Moment) (hd : s.store.chunks[i]? = some d) (dl : Download)
    (n : Nat) : Answered (s.storeChunk now i dl n).state i d (some .downloaded) := by
  have hset := Store.chunk_set_self hd (d.countAttempts n)
  rw [State.storeChunk, Store.change_eq hd, Store.setBatches_eq hset]
  by_cases hl : d.status.leadsTo .downloaded = true
  · rw [if_pos (by exact hl)]
    exact ⟨_, Store.chunk_set_self hset _, by rw [if_pos hl]⟩
  · rw [if_neg (by exact hl)]
    obtain ⟨d', hd', hs⟩ := answered_failChunk (s := { s with
      store := ⟨s.store.chunks.set i (d.countAttempts n)⟩ }) now hset
      (.invalidState (.noTransition i d.status .downloaded)) n
    refine ⟨d', hd', ?_⟩
    rw [if_neg hl]
    split at hs
    · exact Or.inr hs
    · exact hs

theorem answered_ensureLeg (hc : s.closed = false) (hd : s.store.chunks[i]? = some d) :
    Answered (s.ensureLeg p now i).state i d (s.asks p now i .ensure) := by
  rw [State.ensureLeg, State.asks, if_neg (by simp [hc]), Store.get_eq_ok hd]
  dsimp only
  split
  · by_cases hl : d.status.leadsTo .linkResolved = true
    · rw [Store.move_eq hd hl]
      exact answered_granted hd rfl hl
    · rw [move_refused hd hl]
      exact answered_refused hd rfl hl
  · exact answered_same hd rfl

theorem answered_applyLeg (hc : s.closed = false) (hd : s.store.chunks[i]? = some d)
    (links : LinkTable) (attempts : Nat) :
    Answered (s.applyLeg now i links attempts).state i d none := by
  have ha := answered_links hc hd links
  rw [State.applyLeg]
  split
  · rename_i s' effects e heq; rw [heq] at ha; exact ha
  · rename_i s' effects heq; rw [heq] at ha; exact ha

theorem answered_markLeg (hd : s.store.chunks[i]? = some d) (attempts : Nat) :
    Answered (s.markLeg i attempts).state i d (some .linkResolved) := by
  rw [State.markLeg]
  by_cases hl : d.status.leadsTo .linkResolved = true
  · rw [Store.move_eq hd hl]
    exact answered_granted hd rfl hl
  · rw [move_refused hd hl]
    exact answered_refused hd rfl hl

theorem answered_beginLeg (hc : s.closed = false) (hd : s.store.chunks[i]? = some d) :
    Answered (s.beginLeg i).state i d (some .downloading) := by
  rw [State.beginLeg, if_neg (by simp [hc])]
  by_cases hl : d.status.leadsTo .downloading = true
  · rw [Store.move_eq hd hl]
    exact answered_granted hd rfl hl
  · rw [move_refused hd hl]
    exact answered_refused hd rfl hl

theorem answered_attemptLeg (hc : s.closed = false) (hd : s.store.chunks[i]? = some d)
    (a : Retry.Account) : Answered (s.attemptLeg p now addition i a).state i d none := by
  rw [State.attemptLeg, if_neg (by simp [hc]), Store.get_eq_ok hd]
  split
  · exact answered_same hd rfl
  · dsimp only
    split
    · exact answered_same hd rfl
    · exact answered_same hd rfl

theorem answered_refreshLeg (hd : s.store.chunks[i]? = some d) (a : Retry.Account) :
    Answered (s.refreshLeg p addition i a).state i d (some .linkResolved) := by
  rw [State.refreshLeg, State.linkRequest_eq hd]
  by_cases hl : d.status.leadsTo .linkResolved = true
  · rw [Store.move_eq hd hl]
    exact answered_granted hd rfl hl
  · rw [move_refused hd hl]
    exact answered_refused hd (settleAttempt_store ..) hl

theorem answered_applyRefreshedLeg (hc : s.closed = false) (hd : s.store.chunks[i]? = some d)
    (links : LinkTable) (a : Retry.Account) :
    Answered (s.applyRefreshedLeg p addition i links a).state i d none := by
  have ha := answered_links hc hd links
  rw [State.applyRefreshedLeg]
  split
  · rename_i s' effects e heq
    rw [heq] at ha
    obtain ⟨d', hd', hs⟩ := ha
    exact ⟨d', by rw [Leg.state_after, settleAttempt_store]; exact hd', hs⟩
  · rename_i s' effects heq; rw [heq] at ha; exact ha

theorem answered_resumeLeg (hd : s.store.chunks[i]? = some d) (a : Retry.Account) :
    Answered (s.resumeLeg p addition i a).state i d (some .downloading) := by
  rw [State.resumeLeg]
  by_cases hl : d.status.leadsTo .downloading = true
  · rw [Store.move_eq hd hl]
    dsimp only
    split
    · exact answered_granted hd rfl hl
    · exact answered_granted hd (settleAttempt_store ..) hl
    · exact answered_granted hd (settleAttempt_store ..) hl
  · rw [move_refused hd hl]
    exact answered_refused hd (settleAttempt_store ..) hl

theorem answered_complete (hc : s.closed = false) (hd : s.store.chunks[i]? = some d)
    (r : TaskResult) :
    Answered (s.complete now i r).state i d (s.asks p now i (.finish r)) := by
  rw [State.complete]
  dsimp only
  rw [if_neg (by simp [State.setPhase, hc]), Move.state_andThen]
  obtain ⟨_ | dl, n⟩ := r
  · exact answered_failChunk (s := { s.setPhase i .ended with
      inFlight := s.inFlight.erase i }) now hd _ n
  · exact answered_storeChunk (s := { s.setPhase i .ended with
      inFlight := s.inFlight.erase i }) now hd dl n

/-- **A leg changes the status of its chunk as it asks the store to.** -/
theorem leg_answered (hc : s.closed = false) (hd : s.store.chunks[i]? = some d) (pt : Point) :
    Answered (s.leg p now addition i pt).state i d (s.asks p now i pt) := by
  cases pt with
  | ensure => exact answered_ensureLeg hc hd
  | ask request a =>
      rw [State.leg, State.askLeg, if_neg (by simp [hc])]
      split
      · exact answered_same hd rfl
      · exact answered_same hd rfl
  | apply links attempts => exact answered_applyLeg hc hd links attempts
  | mark attempts => exact answered_markLeg hd attempts
  | begin => exact answered_beginLeg hc hd
  | attempt a => exact answered_attemptLeg hc hd a
  | refresh a => exact answered_refreshLeg hd a
  | applyRefreshed links a => exact answered_applyRefreshedLeg hc hd links a
  | resume a => exact answered_resumeLeg hd a
  | finish r => exact answered_complete hc hd r

/-! ## Which changes are granted -/

/-- **All changes are granted but that of a broken task to `downloaded`.** -/
theorem Consistent.granted_iff {points : Nat → Option Point} {broken : Nat → Bool}
    {payloads : Nat → List Download} (h : Consistent p s points broken payloads)
    (hd : s.store.chunks[i]? = some d) {pt : Point} (hp : points i = some pt)
    {next : ChunkStatus} (hask : s.asks p now i pt = some next) :
    d.status.leadsTo next = true ↔ ¬ (next = .downloaded ∧ broken i = true) := by
  obtain ⟨phase, ht, -⟩ := h.running hp
  have hfit := h.fits hd
  rw [ht, hp] at hfit
  have hst : pt.Stands (broken i) d.status := hfit.stands.2
  have granted : d.status.leadsTo next = true → next ≠ .downloaded →
      (d.status.leadsTo next = true ↔ ¬ (next = .downloaded ∧ broken i = true)) :=
    fun hl hne => ⟨fun _ hno => hne hno.1, fun _ => hl⟩
  cases pt with
  | ensure =>
      rw [State.asks, Store.get_eq_ok hd] at hask
      dsimp only at hask
      split at hask
      · obtain rfl := Option.some.inj hask
        exact granted (by rw [hst.1]; rfl) nofun
      · exact nomatch hask
  | mark n =>
      obtain rfl := Option.some.inj hask
      exact granted (by rw [hst.1]; rfl) nofun
  | begin =>
      obtain rfl := Option.some.inj hask
      exact granted (by rw [hst.1]; rfl) nofun
  | refresh a =>
      obtain rfl := Option.some.inj hask
      have hs : d.status = downloadStatus (broken i) := hst
      exact granted (by rw [hs]; cases broken i <;> rfl) nofun
  | resume a =>
      obtain rfl := Option.some.inj hask
      exact granted (by rw [hst.1]; rfl) nofun
  | finish r =>
      obtain ⟨_ | dl, n⟩ := r
      · obtain rfl := Option.some.inj hask
        have hw : d.status.wantsLink = true := hst
        refine granted ?_ nofun
        cases hs : d.status <;> rw [hs] at hw <;> first | rfl | exact nomatch hw
      · obtain rfl := Option.some.inj hask
        have hs : d.status = downloadStatus (broken i) := hst
        rw [hs]
        -- a broken task is in `linkResolved`, which does not lead to `downloaded`
        cases broken i with
        | false => exact ⟨fun _ hno => (nomatch hno.2), fun _ => rfl⟩
        | true => exact ⟨fun hl => (nomatch hl), fun hno => absurd ⟨rfl, rfl⟩ hno⟩
  | ask request a => exact nomatch hask
  | apply links n => exact nomatch hask
  | attempt a => exact nomatch hask
  | applyRefreshed links a => exact nomatch hask

/-! ## What becomes of a payload -/

/-- How a chunk ends whose payload arrived: it holds the batches, or it failed because its task was
broken. -/
def Ends (i : Nat) (broken : Bool) (dl : Download) (d : Descriptor) : Prop :=
  if broken then d.status = .failed ∧ d.error = some (lostPayload i)
  else d.status = .downloaded ∧ d.batches = some dl.batches

/-- The last leg of a task that brings a payload settles the chunk. -/
theorem Consistent.ends {points : Nat → Option Point} {broken : Nat → Bool}
    {payloads : Nat → List Download} (h : Consistent p s points broken payloads)
    (hc : s.closed = false) {dl : Download} {n : Nat} (hd : s.store.chunks[i]? = some d)
    (hp : points i = some (.finish ⟨.ok dl, n⟩)) (now : Moment) :
    ∃ d', (s.complete now i ⟨.ok dl, n⟩).state.store.chunks[i]? = some d'
      ∧ Ends i (broken i) dl d' := by
  obtain ⟨phase, ht, -⟩ := h.running hp
  have hfit := h.fits hd
  rw [ht, hp] at hfit
  rcases complete_cases now hc hd hfit with ⟨dl', hr, hb, hs⟩ | ⟨e, hs, ⟨dl', hr, hb, he⟩ | ⟨e', hr, -⟩⟩
  · obtain rfl : dl = dl' := Except.ok.inj hr
    rw [hs, hb]
    exact ⟨_, Store.chunk_set_self hd _, rfl, rfl⟩
  · rw [hs, hb, he]
    exact ⟨_, Store.chunk_set_self hd _, rfl, rfl⟩
  · exact nomatch hr

/-- A payload that arrived is about to be settled, or it was settled, and since then the chunk may
have been consumed. -/
theorem Consistent.payload_cases {points : Nat → Option Point} {broken : Nat → Bool}
    {payloads : Nat → List Download} (h : Consistent p s points broken payloads)
    (hd : s.store.chunks[i]? = some d) {dl : Download} (hdl : dl ∈ payloads i) :
    (∃ n, points i = some (.finish ⟨.ok dl, n⟩))
      ∨ points i = none
        ∧ (Ends i (broken i) dl d ∨ broken i = false ∧ d.status = .consumed) := by
  have hfit := h.fits hd
  have hpaid := hfit.paid
  have none_left : payloads i = [] → False := by
    intro hnil
    rw [hnil] at hdl
    exact nomatch hdl
  have the_one : ∀ {dl' : Download}, payloads i = [dl'] → dl = dl' := by
    intro dl' hone
    rw [hone] at hdl
    exact List.mem_singleton.1 hdl
  unfold Paid at hpaid
  split at hpaid
  · rename_i dl' n hpt
    obtain rfl := the_one hpaid
    exact Or.inl ⟨n, hpt⟩
  · unfold Settles at hpaid
    split at hpaid
    · rename_i hs
      obtain ⟨dl', hone, hbatches, hb⟩ := hpaid
      obtain rfl := the_one hone
      refine Or.inr ⟨(hfit.ended (Or.inl hs)).2, Or.inl ?_⟩
      rw [Ends, hb]
      exact ⟨hs, hbatches⟩
    · rename_i hs
      obtain ⟨dl', hone, hb⟩ := hpaid
      exact Or.inr ⟨(hfit.ended (Or.inr (Or.inl hs))).2, Or.inr ⟨hb, hs⟩⟩
    · rename_i hs
      rcases hpaid with hnil | ⟨dl', hone, hb, he⟩
      · exact (none_left hnil).elim
      · refine Or.inr ⟨(hfit.ended (Or.inr (Or.inr hs))).2, Or.inl ?_⟩
        rw [Ends, hb]
        exact ⟨hs, he⟩
    · exact (none_left hpaid).elim

/-- **A payload is kept exactly when its task is not broken.** In every reachable world whose
provider is open, each leg changes the status of its chunk as it asks for, every such change is
granted but that of a broken task to `downloaded`, and a payload that arrived for a chunk ends in it
unless its task is broken. -/
theorem payload_kept_iff_unbroken {m : Manifest} {config : FetchConfig} {method : Method}
    {opened : Move} {w : World} (hcreate : create m config method = .ok (p, opened))
    (hw : World.Reachable p opened w) (hopen : w.state.closed = false) (hi : i < p.count) :
    ∃ d, w.state.store.chunks[i]? = some d
      ∧ (∀ pt now addition, w.points i = some pt →
          Answered (w.state.leg p now addition i pt).state i d (w.state.asks p now i pt))
      ∧ (∀ pt now next, w.points i = some pt → w.state.asks p now i pt = some next →
          (d.status.leadsTo next = true ↔ ¬ (next = .downloaded ∧ w.broken i = true)))
      ∧ ∀ dl ∈ w.payloads i,
          (∃ n, w.points i = some (.finish ⟨.ok dl, n⟩)
            ∧ ∀ now addition, ∃ d', Ends i (w.broken i) dl d'
              ∧ (w.state.leg p now addition i (.finish ⟨.ok dl, n⟩)).state.store.chunks[i]? = some d')
          ∨ w.points i = none
            ∧ (Ends i (w.broken i) dl d ∨ w.broken i = false ∧ d.status = .consumed) := by
  have hsound := World.sound_reachable hcreate hw hopen
  obtain ⟨d, hd⟩ := Store.exists_chunk (s := w.state.store) (i := i) (by rw [hsound.size]; exact hi)
  refine ⟨d, hd, fun pt now addition _ => leg_answered hopen hd pt,
    fun pt now next hp hask => hsound.granted_iff hd hp hask, ?_⟩
  intro dl hdl
  rcases hsound.payload_cases hd hdl with ⟨n, hp⟩ | hsettled
  · refine Or.inl ⟨n, hp, ?_⟩
    intro now addition
    obtain ⟨d', hd', hends⟩ := hsound.ends hopen hd hp now
    exact ⟨d', hends, hd'⟩
  · exact Or.inr hsettled

namespace Sample

/-- Both links are missing. The first answer for chunk 0 is a link that expired, the second one is a
failure. Then the answer for chunk 1 brings a link for chunk 0 as well. -/
def refreshFails : List Tick :=
  stretch 0 .start 2 ++ stretch 1 .start 2 ++
  stretch 0 (.links (.ok [(0, linkUntil 0 0)])) 5 ++
  stretch 0 (.links (.error (.http 503 none ""))) 0 ++
  stretch 1 (.links (.ok [(1, linkUntil 100 1), (0, linkUntil 100 0)])) 4 ++
  stretch 1 (.payload (.ok (payload 1))) 1 ++
  stretch 0 .waitOver 1 ++
  stretch 0 (.payload (.ok (payload 0))) 1

end Sample

/-- The payload of chunk 0 arrives, and the chunk fails. -/
theorem payload_lost_after_failed_refresh :
    ∃ w, World.Reachable (Sample.opened fun _ => none).1 (Sample.opened fun _ => none).2 w
      ∧ w.state.closed = false ∧ w.payloads 0 = [Sample.payload 0]
      ∧ w.state.store.chunks[0]?.map (fun d => (d.status, d.error)) =
          some (.failed, some (lostPayload 0)) :=
  World.exists_reachable Sample.dawn Sample.refreshFails (by decide +kernel)

/-- In the same run the payload of chunk 1 is kept. -/
theorem payload_kept_beside_failed_refresh :
    ∃ w d, World.Reachable (Sample.opened fun _ => none).1 (Sample.opened fun _ => none).2 w
      ∧ w.state.store.chunks[1]? = some d ∧ Ends 1 false (Sample.payload 1) d := by
  obtain ⟨w, hw, hopen, hpay, hpoint, hbroken, hstatus⟩ : ∃ w,
      World.Reachable (Sample.opened fun _ => none).1 (Sample.opened fun _ => none).2 w
        ∧ w.state.closed = false ∧ w.payloads 1 = [Sample.payload 1]
        ∧ (w.points 1).isNone = true ∧ w.broken 1 = false
        ∧ w.state.store.chunks[1]?.map (·.status) = some .downloaded :=
    World.exists_reachable Sample.dawn Sample.refreshFails (by decide +kernel)
  have hi : 1 < (Sample.opened fun _ => none).1.count := by decide +kernel
  obtain ⟨d, hd, -, -, hpayload⟩ :=
    payload_kept_iff_unbroken (Sample.create_opened fun _ => none) hw hopen hi
  rw [hd] at hstatus
  rw [hbroken] at hpayload
  refine ⟨w, d, hw, hd, ?_⟩
  rcases hpayload (Sample.payload 1) (by rw [hpay]; exact List.mem_singleton_self _) with
    ⟨n, hp, -⟩ | ⟨-, hends | ⟨-, hconsumed⟩⟩
  · rw [hp] at hpoint
    exact nomatch hpoint
  · exact hends
  · have hs : d.status = .downloaded := Option.some.inj hstatus
    rw [hs] at hconsumed
    exact nomatch hconsumed

end ResultChunks.Provider
