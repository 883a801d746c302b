import ResultChunks.Proofs.Provider.Close
import ResultChunks.Proofs.Provider.Links

/-!
# Which links are downloaded

A task downloads in two places. Before an attempt it looks at the stored link, and takes it if it is
fresh. After a refresh in the middle of an attempt it takes whatever link is stored, fresh or not:
that the resolver answered is enough. The check after an answer is made on the stored link too, and
not on the answer. So a link that the answer has for the chunk is downloaded as it should be, but an
answer that leaves the chunk out lets the old link pass, which is the one that had expired.
-/

namespace ResultChunks.Provider

namespace World

variable {p : Setup} {w w' : World} {i : Nat} {a : Retry.Account} {links : LinkTable}
  {old : Link}

/-! ## A task stores what it heard -/

/-- What the task of a chunk heard last. -/
def lastHeard (w : World) (i : Nat) : Option Signal := (heardBy i w.log).getLast?

/-- The task of another chunk heard an answer with this link for a chunk. -/
def ToldOther (w : World) (i : Nat) (l : Link) : Prop :=
  ∃ j, j ≠ i ∧ ∃ links, .links (.ok links) ∈ heardBy j w.log ∧ links.naming i = some l

/-- **A task that is to store an answer heard it last, and one that goes back to downloading stored the
answer that it heard last.** What this has for the chunk is stored then, or what another task heard. -/
structure Quotes (w : World) : Prop where
  stores : ∀ {i : Nat} {pt : Point} {links : LinkTable}, w.points i = some pt →
    pt.answer = some links → w.lastHeard i = some (.links (.ok links))
  resumes : ∀ {i : Nat} {a : Retry.Account}, w.points i = some (.resume a) →
    ∃ links, w.lastHeard i = some (.links (.ok links)) ∧
      ∀ own, links.naming i = some own → ∀ {d : Descriptor}, w.state.store.chunks[i]? = some d →
        d.link = some own ∨ ∃ l, d.link = some l ∧ w.ToldOther i l

/-- What a step heard and stored. -/
theorem Quotes.step (h : Quotes w) (hpoints : ∀ j, w'.points j = w.points j)
    (hheard : ∀ j, heardBy j w'.log = heardBy j w.log)
    (hlinks : Renewed none w.state w'.state) : Quotes w' where
  stores := by
    intro j pt links hp hanswer
    rw [hpoints] at hp
    rw [lastHeard, hheard]
    exact h.stores hp hanswer
  resumes := by
    intro j a hp
    rw [hpoints] at hp
    obtain ⟨links, hlast, hstored⟩ := h.resumes hp
    refine ⟨links, by rw [lastHeard, hheard]; exact hlast, fun own hown d' hd' => ?_⟩
    obtain ⟨d, hd, hsame | ⟨_, _, hnone, -⟩⟩ := hlinks.chunk hd'
    · rw [hsame]
      simpa only [ToldOther, hheard] using hstored own hown hd
    · cases hnone

/-- Hearing an answer. -/
theorem Quotes.hears (h : Quotes w) {signal : Signal} {l : Leg} {addition : Duration} (now : Moment)
    (hl : w.state.hear p addition i signal = some l) : Quotes ((w.hears i signal).runLeg now i l) := by
  have hself : heardBy i ((w.hears i signal).runLeg now i l).log = heardBy i w.log ++ [signal] := by
    rw [heardBy_runLeg, World.hears, heardBy_append, heardBy_self]
  have hothers : ∀ {j}, j ≠ i →
      heardBy j ((w.hears i signal).runLeg now i l).log = heardBy j w.log := by
    intro j hj
    rw [heardBy_runLeg, heardBy_hears_ne w signal hj]
  have hmono : ∀ {j : Nat} {x : Signal}, x ∈ heardBy j w.log →
      x ∈ heardBy j ((w.hears i signal).runLeg now i l).log := by
    intro j x hx
    by_cases hj : j = i
    · subst hj
      rw [hself]
      exact List.mem_append_left _ hx
    · rw [hothers hj]
      exact hx
  constructor
  · intro j pt links hp hanswer
    rw [points_runLeg] at hp
    by_cases hj : j = i
    · subst hj
      rw [Function.update_self] at hp
      rw [lastHeard, hself, List.getLast?_concat, (State.hear_next hl hp).1 links hanswer]
    · rw [Function.update_of_ne hj] at hp
      rw [lastHeard, hothers hj]
      exact h.stores hp hanswer
  · intro j a hp
    rw [points_runLeg] at hp
    by_cases hj : j = i
    · subst hj
      rw [Function.update_self] at hp
      exact absurd rfl ((State.hear_next hl hp).2 a)
    · rw [Function.update_of_ne hj] at hp
      obtain ⟨links, hlast, hstored⟩ := h.resumes hp
      refine ⟨links, by rw [lastHeard, hothers hj]; exact hlast, fun own hown d hd => ?_⟩
      rw [state_runLeg, State.hear_store hl] at hd
      rcases hstored own hown hd with hown | ⟨l', hl', k, hk, more, hmore, hname⟩
      · exact Or.inl hown
      · exact Or.inr ⟨l', hl', k, hk, more, hmono hmore, hname⟩

/-- Running a leg, which stores an answer or leaves the links alone. -/
theorem Quotes.runs (h : Quotes w) (hsound : Sound p w) (hopen : w.state.closed = false)
    {pt : Point} (hp : w.points i = some pt) (now : Moment) (addition : Duration) :
    Quotes (w.runLeg now i (w.state.leg p now addition i pt)) := by
  have hw := hsound hopen
  have hrenewed : Renewed pt.answer w.state (w.state.leg p now addition i pt).state := by
    by_cases hfinish : ∃ r, pt = .finish r
    · obtain ⟨r, rfl⟩ := hfinish
      exact hw.complete_renewed hopen hp now
    · exact State.leg_renewed p w.state now addition i (not_exists.1 hfinish)
  have hheard : ∀ j, heardBy j (w.runLeg now i (w.state.leg p now addition i pt)).log =
      heardBy j w.log := heardBy_runLeg w now i _
  constructor
  · intro j q links hq hanswer
    rw [points_runLeg] at hq
    by_cases hj : j = i
    · subst hj
      rw [Function.update_self] at hq
      rw [(State.leg_next_answer hq).1] at hanswer
      cases hanswer
    · rw [Function.update_of_ne hj] at hq
      rw [lastHeard, hheard]
      exact h.stores hq hanswer
  · intro j a hq
    rw [points_runLeg] at hq
    by_cases hj : j = i
    · -- the task stored the answer that it heard last
      subst hj
      rw [Function.update_self] at hq
      obtain ⟨links, rfl⟩ := (State.leg_next_answer hq).2 a rfl
      refine ⟨links, by rw [lastHeard, hheard]; exact h.stores hp rfl, fun own hown d' hd' => ?_⟩
      obtain ⟨phase, ht, -⟩ := hw.running hp
      obtain ⟨d, hd⟩ := hw.chunk ht
      have hfit := hw.fits hd
      rw [ht, hp] at hfit
      have hs : d.status = .linkResolved := hfit.stands.2.1
      obtain ⟨store, entries, happly, hchunk⟩ :=
        State.applyLinks_naming links hopen hd (by rw [hs]; rfl)
      rw [hown] at happly hchunk
      have hstore : (w.state.leg p now addition j (.applyRefreshed links a)).state.store = store := by
        rw [State.leg, State.applyRefreshedLeg, happly]
        rfl
      rw [state_runLeg, hstore, hchunk] at hd'
      obtain rfl := Option.some.inj hd'
      exact Or.inl rfl
    · rw [Function.update_of_ne hj] at hq
      obtain ⟨links, hlast, hstored⟩ := h.resumes hq
      refine ⟨links, by rw [lastHeard, hheard]; exact hlast, fun own hown d' hd' => ?_⟩
      obtain ⟨d, hd, hsame | ⟨more, l, hanswer, hname, hl⟩⟩ := hrenewed.chunk hd'
      · rw [hsame]
        simpa only [ToldOther, hheard] using hstored own hown hd
      · -- another task stored a link for the chunk in between
        have hlastHeard := h.stores hp hanswer
        refine Or.inr ⟨l, hl, i, Ne.symm hj, more, ?_, hname⟩
        rw [hheard]
        exact List.mem_of_getLast? hlastHeard

theorem quotes_start {opened : Move} (now : Moment) : Quotes (start now opened) where
  stores := by
    intro i pt links hp
    cases hp
  resumes := by
    intro i a hp
    cases hp

theorem quotes_reachable {m : Manifest} {config : FetchConfig} {method : Method} {opened : Move}
    (hcreate : create m config method = .ok (p, opened)) (hw : Reachable p opened w) :
    w.state.closed = false → Quotes w := by
  refine hw.keeps (P := fun w => w.state.closed = false → Quotes w) (fun now _ => quotes_start now) ?_
  intro w w' hw ih htaken hopen'
  have hopen := htaken.open hopen'
  have hsound := sound_reachable hcreate hw
  have h := ih hopen
  cases htaken with
  | heard now hp hl => exact h.hears now hl
  | ran now addition hp => exact h.runs hsound hopen hp now addition
  | called now hk =>
    refine h.step (fun j => by rw [points_runReader]) (heardBy_runReader w now _ _ _) ?_
    rw [state_runReader]
    exact (State.moveOn_moves hopen (hsound hopen).size).renewed
  | filled now hk =>
    exact h.step (fun j => rfl) (heardBy_runReader w now _ _ _) (.same (State.fill_store p w.state))
  | @looked k n now hk =>
    refine h.step (fun j => by rw [points_runReader]) (heardBy_runReader w now _ _ _) ?_
    obtain ⟨current, surfaced, hframe⟩ := State.look_frame w.state now.elapsed n
    rw [state_runReader, hframe]
    exact .same rfl
  | abandoned hk => exact h.step (fun _ => rfl) (fun _ => rfl) (.same rfl)
  | closed now => exact absurd hopen' (not_open_of_close w now)

end World

/-! ## The two places where a task downloads -/

section

variable {p : Setup} {s : State} {now : Moment} {addition : Duration} {i : Nat} {d : Descriptor}

theorem settleAttempt_noCalls (a : Retry.Account) (result : Except FetchError Download) :
    callsIn (s.settleAttempt p addition i a result).effects = [] := by
  unfold State.settleAttempt
  rcases Retry.settle p.config.retry .get addition a result with _ | o | ⟨cls, delay, b⟩ <;> simp

theorem giveUp_noCalls (e : FetchError) (n : Nat) : callsIn (s.giveUp e n).effects = [] := rfl

/-- **A download takes a fresh link before an attempt, and any link after a refresh.** -/
theorem leg_download {pt : Point} {j : Nat} {l : Link}
    (h : (j, .payload l) ∈ callsIn (s.leg p now addition i pt).effects) :
    j = i ∧ ∃ d, s.store.chunks[i]? = some d ∧ d.link = some l ∧
      (l.isFresh now.wall p.config.expiryBuffer = true ∨ ∃ a, pt = .resume a) := by
  have hruns := State.leg_runs p s now addition i pt
  generalize s.leg p now addition i pt = leg at h hruns
  cases hruns with
  | givesUp => simp [giveUp_noCalls] at h
  | fails | loses => simp [settleAttempt_noCalls] at h
  | applied ha => simp [applyLinks_calls ha] at h
  | unapplied ha => simp [giveUp_noCalls, applyLinks_calls ha] at h
  | renews ha => simp [applyLinks_calls ha] at h
  | unrenewed ha => simp [settleAttempt_noCalls, applyLinks_calls ha] at h
  | overruns | linked | unlinked | asks | marked | begins | expired => simp at h
  | refreshes => simp [callsIn, Effect.call, notes] at h
  | finishes => simp [Leg.last, complete_calls] at h
  | downloads _ hg hfresh =>
    simp only [callsIn_download, callsIn_nil, List.mem_singleton, Prod.mk.injEq,
      Call.payload.injEq] at h
    obtain ⟨rfl, rfl⟩ := h
    obtain ⟨-, hd⟩ := Store.of_get_eq_ok hg
    obtain ⟨hlink, hcheck⟩ := Option.filter_eq_some_iff.1 hfresh
    exact ⟨rfl, _, hd, hlink, Or.inl hcheck⟩
  | @resumes store a d' link hm hg hlink log =>
    simp only [callsIn_append, callsIn_notes, callsIn_download, callsIn_nil, List.nil_append,
      List.mem_singleton, Prod.mk.injEq, Call.payload.injEq] at h
    obtain ⟨rfl, rfl⟩ := h
    obtain ⟨-, hd'⟩ := Store.of_get_eq_ok hg
    -- the change of status left the link as it was
    have hrenewed : Renewed none s { s with store } := .move hm
    obtain ⟨d, hd, hsame | ⟨_, _, hnone, -⟩⟩ := hrenewed.chunk hd'
    · refine ⟨rfl, d, hd, ?_, Or.inr ⟨a, rfl⟩⟩
      rw [← hsame]
      exact hlink
    · cases hnone

theorem settleLinks_noCalls (a : Retry.Account) (result : Except FetchError LinkTable) :
    callsIn (s.settleLinks p addition i a result).effects = [] := by
  unfold State.settleLinks
  rcases Retry.settle p.config.retry p.resolverMethod addition a result with
    _ | ⟨r, n, waited⟩ | ⟨cls, delay, b⟩
  · simp
  · cases r with
    | ok links => simp
    | error e => simp [giveUp_noCalls]
  · simp

/-- A task makes no call before the first leg of a stretch. -/
theorem hear_noCalls {signal : Signal} {l : Leg} (h : s.hear p addition i signal = some l) :
    callsIn l.effects = [] := by
  cases State.hear_hears h with
  | start | refreshed | asksAgain | triesAgain => rfl
  | resolved => exact settleLinks_noCalls _ _
  | unrefreshed | payload => exact settleAttempt_noCalls _ _
  | asksNothing => exact giveUp_noCalls _ _

end

namespace World

variable {p : Setup} {w w' : World} {i : Nat}

/-- A leg of a reader makes no call. -/
theorem calls_runReader {r : State × List Effect × Progress} (hr : callsIn r.2.1 = [])
    (now : Moment) (k : Nat) (wait : Nat → Reader) :
    ∃ more, (w.runReader now k wait r).log = w.log ++ more ∧ callsMade more = [] := by
  obtain ⟨s, effects, answer | next⟩ := r
  · refine ⟨effects.map (.did now) ++ [.returned k answer], ?_, by simpa using hr⟩
    show w.log ++ effects.map (.did now) ++ [.returned k answer] = _
    exact List.append_assoc ..
  · exact ⟨effects.map (.did now), rfl, by simpa using hr⟩

/-- **All calls are made by the legs of tasks.** -/
theorem act_calls {t : Tick} (h : w.act p t = some w') : ∃ more, w'.log = w.log ++ more ∧
    (callsMade more = [] ∨ ∃ i pt, w.points i = some pt ∧
      callsMade more = callsIn (w.state.leg p t.now t.addition i pt).effects) := by
  have hnone : (∃ more, w'.log = w.log ++ more ∧ callsMade more = []) →
      ∃ more, w'.log = w.log ++ more ∧ (callsMade more = [] ∨ ∃ i pt, w.points i = some pt ∧
        callsMade more = callsIn (w.state.leg p t.now t.addition i pt).effects) := by
    intro hmore
    obtain ⟨more, hlog, hcalls⟩ := hmore
    exact ⟨more, hlog, Or.inl hcalls⟩
  unfold World.act at h
  split at h
  · rename_i i signal haction
    split at h
    · rename_i l hp hl
      obtain rfl := Option.some.inj h
      refine hnone ⟨[.heard i signal] ++ l.effects.map (.did t.now), ?_, ?_⟩
      · show w.log ++ [.heard i signal] ++ l.effects.map (.did t.now) = _
        exact List.append_assoc ..
      rw [callsMade_append, callsMade_heard, callsMade_did, hear_noCalls hl]
      rfl
    · cases h
  · rename_i i haction
    obtain ⟨pt, hp, rfl⟩ := Option.map_eq_some_iff.1 h
    exact ⟨_, rfl, Or.inr ⟨i, pt, hp, callsMade_did _ _⟩⟩
  · split at h
    · obtain rfl := Option.some.inj h
      exact hnone (calls_runReader (moveOn_calls p w.state) _ _ _)
    · cases h
  · split at h
    · obtain rfl := Option.some.inj h
      exact hnone (calls_runReader (fill_calls p w.state) _ _ _)
    · cases h
  · split at h
    · obtain rfl := Option.some.inj h
      exact hnone (calls_runReader (look_calls w.state _ _) _ _ _)
    · cases h
  · split at h
    · obtain rfl := Option.some.inj h
      exact hnone ⟨[], (List.append_nil _).symm, rfl⟩
    · cases h
  · obtain rfl := Option.some.inj h
    exact hnone ⟨_, rfl, (callsMade_did _ _).trans (close_calls w.state)⟩

end World

/-! ## The answer to a question for links, with nothing in between -/

section

variable {p : Setup} {s : State} {i : Nat} {d : Descriptor} {a : Retry.Account}
  {links : LinkTable}

/-- **After a refresh, the chunk is downloaded with what the answer has for it, or else with the link
that it had.** -/
theorem refreshed_calls {old : Link} (hc : s.closed = false) (ht : s.tasks[i]? = some (.refreshing a))
    (hd : s.store.chunks[i]? = some d) (hs : d.status = .linkResolved) (hl : d.link = some old)
    (now : Moment) (addition : Duration) :
    callsIn (s.linksArrived p now addition i (.ok links)).effects =
      [(i, .payload ((links.naming i).getD old))] := by
  obtain ⟨store, entries, happly, hchunk⟩ :=
    State.applyLinks_naming links hc hd (by rw [hs]; rfl)
  have hlink : (links.naming i).or d.link = some ((links.naming i).getD old) := by
    rw [hl]
    cases links.naming i <;> rfl
  rw [hlink] at happly hchunk
  have hleads : d.status.leadsTo .downloading = true := by rw [hs]; rfl
  have hmove := Store.move_eq hchunk hleads
  have hmoved := Store.get_eq_ok (Store.chunk_set_self hchunk
    { d with link := some ((links.naming i).getD old), status := .downloading })
  simp only [State.linksArrived, ht, State.linkRefreshed, happly, Option.isSome_some, if_true, hmove]
  rw [hmoved]
  simp [Except.map]

/-- Links that were asked for first are stored in the stretch that hears them. -/
theorem linksArrived_first (ht : s.tasks[i]? = some (.resolving a)) (now : Moment)
    (addition : Duration) : s.linksArrived p now addition i (.ok links) =
      s.linksResolved p now addition i links a.attempts := by
  rw [State.linksArrived, ht]
  rfl

/-- **A first answer without a link for a chunk that has none fails the chunk.** -/
theorem resolved_without_link (hc : s.closed = false) (ht : s.tasks[i]? = some (.resolving a))
    (hd : s.store.chunks[i]? = some d) (hs : d.status = .pending) (hl : d.link = none)
    (hn : links.naming i = none) (now : Moment) (addition : Duration) :
    callsIn (s.linksArrived p now addition i (.ok links)).effects = [] ∧
      ∃ d', (s.linksArrived p now addition i (.ok links)).state.store.chunks[i]? = some d' ∧
        d'.status = .failed ∧ d'.error = some (.chunkDownload i (retriesOf a.attempts)
          (.invalidManifest (.noLinkResolved i))) := by
  obtain ⟨store, entries, happly, hchunk⟩ :=
    State.applyLinks_naming links hc hd (by rw [hs]; rfl)
  rw [hn, hl] at happly hchunk
  have harrived : s.linksArrived p now addition i (.ok links) =
      (({ s with store } : State).complete now i
        ⟨.error (.invalidManifest (.noLinkResolved i)), a.attempts⟩).after
        (.report (.linksResolved [i] links.length a.attempts now.elapsed) :: notes entries) := by
    rw [linksArrived_first ht, State.linksResolved, happly]
    rfl
  have hfail : d.status.leadsTo .failed = true := by rw [hs]; rfl
  refine ⟨?_, ?_⟩
  · rw [harrived, Move.effects_after, callsIn_append, complete_calls]
    simp
  · rw [harrived, Move.state_after, State.complete_error (s := { s with store }) hc hchunk hfail]
    exact ⟨_, Store.chunk_set_self hchunk _, rfl, rfl⟩

/-- **A first answer that leaves the chunk with a link that is not fresh is followed by another
question.** -/
theorem resolved_with_stale {old : Link} (hc : s.closed = false)
    (ht : s.tasks[i]? = some (.resolving a)) (hd : s.store.chunks[i]? = some d)
    (hs : d.status = .pending) (hl : d.link = some old) (hn : links.naming i = none)
    {now : Moment} (hstale : old.isFresh now.wall p.config.expiryBuffer = false)
    (addition : Duration) :
    callsIn (s.linksArrived p now addition i (.ok links)).effects = [(i, .links)] := by
  obtain ⟨store, entries, happly, hchunk⟩ :=
    State.applyLinks_naming links hc hd (by rw [hs]; rfl)
  rw [hn, hl] at happly hchunk
  -- the chunk is noted as linked, then as downloading, and then set back for the refresh
  have hlinked : d.status.leadsTo .linkResolved = true := by rw [hs]; rfl
  have hmark := Store.move_eq hchunk hlinked
  have hchunk₁ := Store.chunk_set_self hchunk { d with link := some old, status := .linkResolved }
  have hbegin := Store.move_eq (s := ⟨_⟩) hchunk₁
    (show ChunkStatus.leadsTo .linkResolved .downloading = true from rfl)
  have hchunk₂ := Store.chunk_set_self (s := ⟨_⟩) hchunk₁
    { d with link := some old, status := .downloading }
  have hback := Store.move_eq (s := ⟨_⟩) hchunk₂
    (show ChunkStatus.leadsTo .downloading .linkResolved = true from rfl)
  have hlook := Store.get_eq_ok (s := ⟨_⟩) hchunk₂
  have hfresh : ({ d with link := some old, status := .downloading } : Descriptor).freshLink now.wall
      p.config.expiryBuffer = none := by
    simp [Descriptor.freshLink, hstale]
  rw [linksArrived_first ht, State.linksResolved, happly]
  simp only [Option.none_or, Option.isSome_some, if_true, hmark, State.beginDownload, hc,
    Bool.false_eq_true, if_false, hbegin, State.attempt, Retry.full_unused, hlook, hfresh,
    State.refresh, State.linkRequest, hback]
  simp [bind, Except.bind]

end

/-- **A link is downloaded that is fresh, or that the task's last answer or the answer of another task
has for the chunk, if only each answer names the chunk that asked.** After a refresh, and with nothing
in between, the link is fresh or from the answer exactly if the answer names the chunk or the link that
the chunk had is still fresh; if the answer leaves the chunk out, this old link is downloaded. A first
answer that leaves the chunk out fails it only if it has no link at all; a link that is not fresh is
asked for again. -/
theorem downloads_vouched_iff_named {p : Setup} {m : Manifest} {config : FetchConfig}
    {method : Method} {opened : Move} {w : World}
    (hcreate : create m config method = .ok (p, opened)) (hw : World.Reachable p opened w) :
    (∀ {t : Tick} {w' : World} {more : List Event} {i : Nat} {l : Link},
        w.act p t = some w' → w'.log = w.log ++ more → (i, .payload l) ∈ callsMade more →
        l.isFresh t.now.wall p.config.expiryBuffer = true
          ∨ ∃ links, w.lastHeard i = some (.links (.ok links))
              ∧ ∀ own, links.naming i = some own → l = own ∨ w.ToldOther i l)
      ∧ (w.state.closed = false → ∀ {i : Nat} {a : Retry.Account}, w.points i = none →
          w.state.tasks[i]? = some (.refreshing a) →
          ∃ d old, w.state.store.chunks[i]? = some d ∧ d.link = some old
            ∧ ∀ links now addition, ∃ l,
                callsIn (w.state.linksArrived p now addition i (.ok links)).effects =
                  [(i, .payload l)]
                ∧ (links.naming i = none → l = old)
                ∧ (l.isFresh now.wall p.config.expiryBuffer = true ∨ links.naming i = some l ↔
                    (links.naming i).isSome = true
                      ∨ old.isFresh now.wall p.config.expiryBuffer = true))
      ∧ (w.state.closed = false → ∀ {i : Nat} {a : Retry.Account}, w.points i = none →
          w.state.tasks[i]? = some (.resolving a) →
          ∃ d, w.state.store.chunks[i]? = some d
            ∧ ∀ links now addition, links.naming i = none →
              (d.link = none →
                callsIn (w.state.linksArrived p now addition i (.ok links)).effects = []
                ∧ ∃ d', (w.state.linksArrived p now addition i (.ok links)).state.store.chunks[i]? =
                    some d' ∧ d'.status = .failed
                  ∧ d'.error = some (.chunkDownload i (retriesOf a.attempts)
                      (.invalidManifest (.noLinkResolved i))))
              ∧ ∀ old, d.link = some old → old.isFresh now.wall p.config.expiryBuffer = false →
                callsIn (w.state.linksArrived p now addition i (.ok links)).effects =
                  [(i, .links)]) := by
  refine ⟨?_, ?_, ?_⟩
  · intro t w' more i l hact hlog hmore
    obtain ⟨more', hlog', hcalls⟩ := World.act_calls hact
    obtain rfl : more = more' := List.append_cancel_left (hlog.symm.trans hlog')
    rcases hcalls with hnone | ⟨j, pt, hp, hleg⟩
    · rw [hnone] at hmore
      cases hmore
    · rw [hleg] at hmore
      -- before an attempt the link is fresh; after a refresh it is the one that is stored
      obtain ⟨rfl, d, hd, hl, hfresh | ⟨a, rfl⟩⟩ := leg_download hmore
      · exact Or.inl hfresh
      · cases hopen : w.state.closed with
        | true =>
          have hshut := World.shut_reachable hcreate hw hopen
          rw [(hshut.leg (.resume a)).calls] at hmore
          cases hmore
        | false =>
          obtain ⟨links, hlast, hstored⟩ := (World.quotes_reachable hcreate hw hopen).resumes hp
          refine Or.inr ⟨links, hlast, fun own hown => ?_⟩
          rcases hstored own hown hd with hsame | ⟨l', hl', htold⟩
          · exact Or.inl (Option.some.inj (hl.symm.trans hsame))
          · obtain rfl := Option.some.inj (hl.symm.trans hl')
            exact Or.inr htold
  · intro hopen i a hp ht
    have hsound := World.sound_reachable hcreate hw hopen
    obtain ⟨d, hd⟩ := hsound.chunk ht
    have hfit := hsound.fits hd
    rw [ht, hp] at hfit
    have hs : d.status = .linkResolved := hfit.stands
    obtain ⟨old, hold⟩ := Option.isSome_iff_exists.1 (hfit.linked (by rw [hs]; rfl))
    refine ⟨d, old, hd, hold, fun links now addition =>
      ⟨_, refreshed_calls hopen ht hd hs hold now addition, ?_, ?_⟩⟩
    · intro hnone
      rw [hnone]
      rfl
    · cases links.naming i with
      | none => simp
      | some own => simp
  · intro hopen i a hp ht
    have hsound := World.sound_reachable hcreate hw hopen
    obtain ⟨d, hd⟩ := hsound.chunk ht
    have hfit := hsound.fits hd
    rw [ht, hp] at hfit
    have hs : d.status = .pending := hfit.stands
    refine ⟨d, hd, fun links now addition hnone => ⟨fun hl => ?_, fun old hl hstale => ?_⟩⟩
    · exact resolved_without_link hopen ht hd hs hl hnone now addition
    · exact resolved_with_stale hopen ht hd hs hl hnone hstale addition

namespace Sample

/-- The task asks for the link of chunk 0, is answered with no link, and asks again before it
downloads. -/
def asksAgain : List Tick := stretch 0 .start 2 ++ stretch 0 (.links (.ok [])) 5

/-- The links that a signal brings. -/
def offers : Signal → List Link
  | .links (.ok links) => links.map Prod.snd
  | _ => []

/-- The task waits for the answer to a refresh. -/
def isRefreshing : Option Phase → Bool
  | some (.refreshing _) => true
  | _ => false

theorem eq_of_isRefreshing {o : Option Phase} (h : isRefreshing o = true) :
    ∃ a, o = some (.refreshing a) := by
  unfold isRefreshing at h
  split at h
  · rename_i a
    exact ⟨a, rfl⟩
  · cases h

end Sample

/-- No answer has a link, and the link that expired is downloaded. -/
theorem expired_link_downloaded :
    (∃ w, World.Reachable (Sample.opened Sample.staleLinks).1 (Sample.opened Sample.staleLinks).2 w
      ∧ (heardBy 0 w.log).flatMap Sample.offers = []
      ∧ callsMade w.log = [(0, .links), (0, .links), (0, .payload (Sample.linkUntil 0 0))])
    ∧ (Sample.linkUntil 0 0).isFresh Sample.dawn.wall
        (Sample.opened Sample.staleLinks).1.config.expiryBuffer = false := by
  refine ⟨?_, by decide +kernel⟩
  exact World.exists_reachable Sample.dawn
    (Sample.asksAgain ++ Sample.stretch 0 (.links (.ok [])) 2) (by decide +kernel)

/-- An answer to the second question that has the link is used. -/
theorem named_link_downloaded :
    ∃ w l, World.Reachable (Sample.opened Sample.staleLinks).1 (Sample.opened Sample.staleLinks).2 w
      ∧ callsIn (w.state.linksArrived (Sample.opened Sample.staleLinks).1 Sample.dawn .zero 0
          (.ok [(0, Sample.linkUntil 100 0)])).effects = [(0, .payload l)]
      ∧ (l.isFresh Sample.dawn.wall (Sample.opened Sample.staleLinks).1.config.expiryBuffer = true
        ∨ LinkTable.naming [(0, Sample.linkUntil 100 0)] 0 = some l) := by
  obtain ⟨w, hw, hopen, hpoint, hphase⟩ : ∃ w,
      World.Reachable (Sample.opened Sample.staleLinks).1 (Sample.opened Sample.staleLinks).2 w
        ∧ w.state.closed = false ∧ (w.points 0).isNone = true
        ∧ Sample.isRefreshing w.state.tasks[0]? = true :=
    World.exists_reachable Sample.dawn Sample.asksAgain (by decide +kernel)
  obtain ⟨a, ht⟩ := Sample.eq_of_isRefreshing hphase
  obtain ⟨-, hrefresh, -⟩ :=
    downloads_vouched_iff_named (Sample.create_opened Sample.staleLinks) hw
  obtain ⟨d, old, -, -, hanswer⟩ := hrefresh hopen (Option.isNone_iff_eq_none.1 hpoint) ht
  obtain ⟨l, hcalls, -, hvouched⟩ := hanswer [(0, Sample.linkUntil 100 0)] Sample.dawn .zero
  exact ⟨w, l, hw, hcalls, hvouched.2 (Or.inl (by decide))⟩

end ResultChunks.Provider
