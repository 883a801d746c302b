import ResultChunks.Proofs.Provider.Calls

/-!
# What a task reports

A chunk's task reports its links, each retry, and how it ended. `reportsOf` reads off the log what
was reported about one chunk. Only the legs of that chunk's own task report anything about it, and
the last leg of a task in an open provider reports exactly one thing: how the task ended.
-/

namespace ResultChunks

namespace ChunkEvent

/-- Is an event about a chunk alone? -/
def isFor (i : Nat) : ChunkEvent → Bool
  | linksResolved chunks _ _ _ => chunks == [(i : Int)]
  | downloaded chunk _ _ _ _ | failed chunk _ _ _ | retry chunk _ _ _ => chunk == (i : Int)

/-- Does an event tell how a task ended? -/
def isLast : ChunkEvent → Bool
  | downloaded .. | failed .. => true
  | linksResolved .. | retry .. => false

/-- Does an event tell of a retry? -/
def isRetry : ChunkEvent → Bool
  | retry .. => true
  | linksResolved .. | downloaded .. | failed .. => false

end ChunkEvent

namespace Provider

/-- What an effect reports about a chunk. -/
def Effect.reports (i : Nat) : Effect → Option ChunkEvent
  | .report event => if event.isFor i then some event else none
  | _ => none

/-- What effects report about a chunk. -/
def reportsIn (i : Nat) (effects : List Effect) : List ChunkEvent :=
  effects.filterMap (Effect.reports i)

/-- What was reported about a chunk, in order. -/
def reportsOf (i : Nat) (log : List Event) : List ChunkEvent :=
  log.filterMap fun
    | .did _ effect => effect.reports i
    | _ => none

section

variable (i : Nat)

@[simp] theorem reportsIn_nil : reportsIn i [] = [] := rfl

@[simp] theorem reportsIn_append (effects more : List Effect) :
    reportsIn i (effects ++ more) = reportsIn i effects ++ reportsIn i more :=
  List.filterMap_append

@[simp] theorem reportsIn_notes (entries : List Log.Entry) : reportsIn i (notes entries) = [] := by
  rw [reportsIn, notes, List.filterMap_map]
  exact List.filterMap_eq_nil_iff.2 fun _ _ => rfl

@[simp] theorem reportsIn_note (entry : Log.Entry) (effects : List Effect) :
    reportsIn i (.note entry :: effects) = reportsIn i effects := rfl

@[simp] theorem reportsIn_wake (effects : List Effect) :
    reportsIn i (.wake :: effects) = reportsIn i effects := rfl

@[simp] theorem reportsIn_askLinks (j : Nat) (request : LinkRequest) (effects : List Effect) :
    reportsIn i (.askLinks j request :: effects) = reportsIn i effects := rfl

@[simp] theorem reportsIn_download (j : Nat) (link : Link) (effects : List Effect) :
    reportsIn i (.download j link :: effects) = reportsIn i effects := rfl

variable {i}

theorem reportsIn_report {event : ChunkEvent} (h : event.isFor i = true) (effects : List Effect) :
    reportsIn i (.report event :: effects) = event :: reportsIn i effects :=
  List.filterMap_cons_some (if_pos h)

theorem reportsIn_report_ne {event : ChunkEvent} (h : event.isFor i = false)
    (effects : List Effect) : reportsIn i (.report event :: effects) = reportsIn i effects :=
  List.filterMap_cons_none (if_neg (by rw [h]; exact Bool.false_ne_true))

end

/-! ## The log -/

@[simp] theorem reportsOf_append (i : Nat) (log more : List Event) :
    reportsOf i (log ++ more) = reportsOf i log ++ reportsOf i more := List.filterMap_append

@[simp] theorem reportsOf_did (i : Nat) (now : Moment) (effects : List Effect) :
    reportsOf i (effects.map (.did now)) = reportsIn i effects := by
  rw [reportsOf, List.filterMap_map]
  rfl

@[simp] theorem reportsOf_heard (i j : Nat) (signal : Signal) :
    reportsOf i [.heard j signal] = [] := rfl

@[simp] theorem reportsOf_returned (i k : Nat) (answer : Answer) :
    reportsOf i [.returned k answer] = [] := rfl

/-! ## The legs of a task -/

section

variable {p : Setup} {s : State} {now : Moment} {addition : Duration} {i j : Nat}

theorem chunk_ne (h : j ≠ i) : ((i : Int) == (j : Int)) = false := by
  rw [beq_eq_false_iff_ne]
  omega

theorem failed_ne (h : j ≠ i) (retries : Nat) (elapsed : Duration) (e : FetchError) :
    (ChunkEvent.failed i retries elapsed e).isFor j = false := chunk_ne h

theorem downloaded_ne (h : j ≠ i) (byteCount rowCount attempts : Nat) (elapsed : Duration) :
    (ChunkEvent.downloaded i byteCount rowCount attempts elapsed).isFor j = false := chunk_ne h

theorem retry_ne (h : j ≠ i) (cls : FailureClass) (attempt : Nat) (delay : Duration) :
    (ChunkEvent.retry i cls attempt delay).isFor j = false := chunk_ne h

theorem linksResolved_ne (h : j ≠ i) (linkCount attempts : Nat) (elapsed : Duration) :
    (ChunkEvent.linksResolved [i] linkCount attempts elapsed).isFor j = false := by
  rw [ChunkEvent.isFor, beq_eq_false_iff_ne]
  intro heq
  obtain ⟨hij, -⟩ := List.cons.inj heq
  omega

/-- What the last leg of a task reports. -/
def verdict (d : Descriptor) (now : Moment) (i : Nat) (r : TaskResult) : ChunkEvent :=
  match r.result with
  | .ok dl =>
    if d.status.leadsTo .downloaded then
      .downloaded i dl.byteCount dl.rowCount r.attempts now.elapsed
    else .failed i (retriesOf r.attempts) now.elapsed
      (.invalidState (.noTransition i d.status .downloaded))
  | .error e => .failed i (retriesOf r.attempts) now.elapsed (State.taskError i r.attempts e)

theorem isFor_verdict (d : Descriptor) (now : Moment) (i : Nat) (r : TaskResult) :
    (verdict d now i r).isFor i = true := by
  rw [verdict]
  cases r.result with
  | error e => exact beq_self_eq_true _
  | ok dl => dsimp only; split <;> exact beq_self_eq_true _

theorem failChunk_reports (s : State) (now : Moment) (e : FetchError) (n : Nat) :
    reportsIn j (s.failChunk now i e n).effects =
      reportsIn j [.report (.failed i (retriesOf n) now.elapsed e)] := by
  rw [State.failChunk]
  dsimp only
  split <;> simp [note]

/-- **The last leg of a task reports how the task ended, and nothing else.** -/
theorem complete_reports {d : Descriptor} (hc : s.closed = false)
    (hd : s.store.chunks[i]? = some d) (r : TaskResult) :
    reportsIn j (s.complete now i r).effects = reportsIn j [.report (verdict d now i r)] := by
  have hset := Store.chunk_set_self hd (d.countAttempts r.attempts)
  rw [State.complete]
  dsimp only
  rw [if_neg (by rw [State.setPhase, hc]; exact Bool.false_ne_true), Move.effects_andThen, verdict,
    reportsIn_append, reportsIn_wake, reportsIn_nil, List.append_nil]
  cases r.result with
  | error e => exact failChunk_reports _ now _ _
  | ok dl =>
      dsimp only
      rw [State.storeChunk, State.setPhase, Store.change_eq hd, Store.setBatches_eq hset]
      by_cases hl : d.status.leadsTo .downloaded = true
      · rw [if_pos (by exact hl), if_pos hl]
        exact (reportsIn_append ..).trans (by rw [reportsIn_notes, List.nil_append])
      · rw [if_neg (by exact hl), if_neg hl]
        dsimp only
        rw [Move.effects_after]
        exact (reportsIn_append ..).trans (failChunk_reports _ now _ r.attempts)

/-! ### No leg reports anything about another chunk -/

theorem complete_others (hj : j ≠ i) (r : TaskResult) :
    reportsIn j (s.complete now i r).effects = [] := by
  have fails : ∀ (t : State) (e : FetchError) (n : Nat),
      reportsIn j (t.failChunk now i e n).effects = [] := by
    intro t e n
    rw [failChunk_reports, reportsIn_report_ne (failed_ne hj ..), reportsIn_nil]
  rw [State.complete]
  dsimp only
  split
  · rfl
  · rw [Move.effects_andThen, reportsIn_append, reportsIn_wake, reportsIn_nil, List.append_nil]
    split
    · rw [State.storeChunk]
      dsimp only
      split
      · rw [reportsIn_append, reportsIn_notes, reportsIn_report_ne (downloaded_ne hj ..)]
        rfl
      · rw [Move.effects_after, reportsIn_append, fails]
        rfl
    · exact fails ..

theorem settleAttempt_others (hj : j ≠ i) (a : Retry.Account) (result : Except FetchError Download) :
    reportsIn j (s.settleAttempt p addition i a result).effects = [] := by
  unfold State.settleAttempt
  rcases Retry.settle p.config.retry .get addition a result with _ | ⟨o⟩ | ⟨cls, delay, b⟩
  · exact reportsIn_notes j _
  · exact reportsIn_notes j _
  · dsimp only
    rw [reportsIn_append, reportsIn_notes, reportsIn_report_ne (retry_ne hj ..)]
    rfl

theorem settleLinks_others (hj : j ≠ i) (a : Retry.Account) (result : Except FetchError LinkTable) :
    reportsIn j (s.settleLinks p addition i a result).effects = [] := by
  unfold State.settleLinks
  rcases Retry.settle p.config.retry p.resolverMethod addition a result with
    _ | ⟨r, n, waited⟩ | ⟨cls, delay, b⟩
  · exact reportsIn_notes j _
  · cases r with
    | ok links => exact reportsIn_notes j _
    | error e =>
        dsimp only
        rw [Leg.effects_after, reportsIn_append, reportsIn_notes]
        rfl
  · dsimp only
    rw [reportsIn_append, reportsIn_notes, reportsIn_report_ne (retry_ne hj ..)]
    rfl

theorem applyLinks_reports {s' : State} {links : LinkTable} {effects : List Effect}
    {checked : Except FetchError Unit} (h : s.applyLinks i links = (s', effects, checked)) :
    reportsIn j effects = [] := by
  unfold State.applyLinks at h
  split at h
  · obtain ⟨-, h⟩ := Prod.mk.inj h
    obtain ⟨rfl, -⟩ := Prod.mk.inj h
    rfl
  · obtain ⟨-, h⟩ := Prod.mk.inj h
    obtain ⟨rfl, -⟩ := Prod.mk.inj h
    exact reportsIn_notes j _

/-- The links that were asked for first are reported for the chunk they were asked for. -/
theorem applyLeg_reports (links : LinkTable) (attempts : Nat) :
    reportsIn j (s.applyLeg now i links attempts).effects =
      reportsIn j [.report (.linksResolved [i] links.length attempts now.elapsed)] := by
  rw [State.applyLeg]
  split
  · rename_i s' effects e ha
    rw [Leg.effects_after, ← List.singleton_append, reportsIn_append, reportsIn_append,
      applyLinks_reports ha, List.append_nil]
    exact List.append_nil _
  · rename_i s' effects ha
    rw [← List.singleton_append, reportsIn_append, applyLinks_reports ha, List.append_nil]

theorem leg_others (hj : j ≠ i) (pt : Point) :
    reportsIn j (s.leg p now addition i pt).effects = [] := by
  have hruns := State.leg_runs p s now addition i pt
  by_cases hpt : ∃ links attempts, pt = .apply links attempts
  · obtain ⟨links, attempts, rfl⟩ := hpt
    exact (applyLeg_reports links attempts).trans (reportsIn_report_ne (linksResolved_ne hj ..) _)
  generalize s.leg p now addition i pt = l at hruns
  cases hruns with
  | givesUp => exact (reportsIn_append ..).trans (by rw [reportsIn_notes]; rfl)
  | fails => rw [Leg.effects_after, reportsIn_append, reportsIn_notes, settleAttempt_others hj]; rfl
  | linked | unlinked | marked | begins => exact reportsIn_notes j _
  | overruns | asks | downloads | expired => rfl
  | applied | unapplied => exact absurd ⟨_, _, rfl⟩ hpt
  | refreshes => rw [reportsIn_append, reportsIn_notes]; rfl
  | renews ha => exact applyLinks_reports ha
  | unrenewed ha =>
      rw [Leg.effects_after, reportsIn_append, applyLinks_reports ha, settleAttempt_others hj]
      rfl
  | resumes => rw [reportsIn_append, reportsIn_notes]; rfl
  | loses =>
      rw [Leg.effects_after, reportsIn_append, reportsIn_notes, settleAttempt_others hj]
      rfl
  | finishes r => exact complete_others hj r

theorem hear_others (hj : j ≠ i) {signal : Signal} {l : Leg}
    (hl : s.hear p addition i signal = some l) : reportsIn j l.effects = [] := by
  cases State.hear_hears hl with
  | start | refreshed | asksAgain | asksNothing | triesAgain => rfl
  | resolved => exact settleLinks_others hj ..
  | unrefreshed | payload => exact settleAttempt_others hj ..

/-! ### Readers report nothing -/

theorem releaseCurrent_reports {m : Move} (h : s.releaseCurrent p = .ok m) :
    reportsIn i m.effects = [] := by
  rw [State.releaseCurrent] at h
  split at h
  · rw [State.releaseChunk] at h
    cases hg : s.store.get s.current.toNat with
    | error e => rw [hg] at h; cases h
    | ok d =>
        rw [hg] at h
        change (if d.status ≠ .downloaded then _ else _) = _ at h
        split at h
        · cases h; rfl
        · cases hr : s.store.release s.current.toNat with
          | error e => rw [hr] at h; cases h
          | ok r =>
              rw [hr] at h
              cases h
              exact (reportsIn_append ..).trans (by rw [reportsIn_notes]; rfl)
  · cases h; rfl

theorem moveOn_reports (p : Setup) (s : State) (i : Nat) : reportsIn i (s.moveOn p).2.1 = [] := by
  rw [State.moveOn]
  split
  · rfl
  · split
    · rfl
    · split
      · rfl
      · rename_i m hm
        dsimp only
        split
        · rw [reportsIn_append, releaseCurrent_reports hm]
          rfl
        · exact releaseCurrent_reports hm

theorem fill_reports (p : Setup) (s : State) (i : Nat) : reportsIn i (s.fill p).effects = [] := by
  fun_induction State.fill p s with
  | case1 s hm ih => rw [Move.effects_after, reportsIn_append, ih]; rfl
  | case2 s hm => rfl

theorem look_reports (s : State) (waited : Duration) (k i : Nat) :
    reportsIn i (s.look waited k).2.1 = [] := by
  rw [State.look]
  split
  · rfl
  · split
    · rfl
    · dsimp only
      split <;> rfl

theorem close_reports (s : State) (i : Nat) : reportsIn i s.close.effects = [] := by
  rw [State.close]
  split <;> rfl

end

end Provider

end ResultChunks
