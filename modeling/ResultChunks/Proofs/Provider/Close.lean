import ResultChunks.Proofs.Provider.Failure

/-!
# A close is final

A close takes the lock once, whatever the tasks and readers are in the middle of. It finishes every
chunk, and from then on each leg stops at one of two barriers: it sees the closed flag, or it asks
the store for a step that the life of a finished chunk does not know. So no leg after a close does
more than move its own task (`Barren`), and no action changes more than that (`Still`).

The tasks of a closed provider are let run on here, although they are aborted where they wait. What
holds of all their legs holds of the few that an abort comes too late for. So no task decides on a
call after a close. A call that was decided on before is another matter: it is made when the lock is
free again, and a close may come in between.
-/

namespace ResultChunks.Provider

variable {p : Setup} {s : State} {now : Moment} {addition : Duration} {i : Nat}

/-! ## A closed provider -/

/-- The provider was closed, and nothing is left of its work. -/
structure Shut (s : State) : Prop where
  closed : s.closed = true
  final : ∀ {i : Nat} {d : Descriptor}, s.store.chunks[i]? = some d →
    d.status = .consumed ∨ d.status = .released
  empty : ∀ {i : Nat} {d : Descriptor}, s.store.chunks[i]? = some d → d.batches = none
  held : s.held = 0
  inFlight : s.inFlight = []

theorem releaseOne_status (d : Descriptor) : (Store.releaseOne d).status =
    if d.status = .consumed then .consumed else .released := by
  unfold Store.releaseOne
  cases hs : d.status <;> rfl

theorem close_eq_of_closed (h : s.closed = true) : s.close = ⟨s, []⟩ := by
  rw [State.close, if_pos h]

/-- **A close shuts an open provider down.** -/
theorem shut_close (h : s.closed = false) : Shut s.close.state := by
  rw [State.close, if_neg (by simp [h])]
  -- every chunk is one from before, released as far as its life allows
  have hchunk : ∀ {i : Nat} {d : Descriptor}, s.store.releaseAll.chunks[i]? = some d →
      ∃ d₀, d = Store.releaseOne d₀ := by
    intro i d hd
    obtain ⟨d₀, -, hd₀⟩ := Option.map_eq_some_iff.1 (List.getElem?_map.symm.trans hd)
    exact ⟨d₀, hd₀.symm⟩
  refine ⟨rfl, ?_, ?_, rfl, rfl⟩
  · intro i d hd
    obtain ⟨d₀, rfl⟩ := hchunk hd
    rw [releaseOne_status]
    split
    · exact Or.inl rfl
    · exact Or.inr rfl
  · intro i d hd
    obtain ⟨d₀, rfl⟩ := hchunk hd
    rfl

theorem Shut.holding (h : Shut s) : s.store.holding = 0 := by
  rw [Store.holding, List.length_eq_zero_iff]
  refine List.filter_eq_nil_iff.2 ?_
  intro d hd
  obtain ⟨i, hi⟩ := List.mem_iff_getElem?.1 hd
  rw [h.empty hi]
  exact nofun

/-- No chunk moves any more. -/
theorem Shut.move_refused (h : Shut s) (index : Int) (next : ChunkStatus) :
    ∃ e, s.store.move index next = .error e := by
  rw [Store.move, Store.moveWith]
  cases hg : s.store.get index with
  | error e => exact ⟨e, rfl⟩
  | ok d =>
      obtain ⟨-, hd⟩ := Store.of_get_eq_ok hg
      have hl := ChunkStatus.leadsTo_eq_false_of_final (t := next) (h.final hd)
      refine ⟨.invalidState (.noTransition index d.status next), ?_⟩
      change (if d.status.leadsTo next then _ else _) = _
      rw [if_neg (by simp [hl])]

/-! ## The legs of tasks -/

/-- Only a task moved, and nothing was asked for. -/
structure Barren (s : State) (l : Leg) : Prop where
  state : ∃ tasks, tasks.length = s.tasks.length ∧ l.state = { s with tasks }
  calls : callsIn l.effects = []

theorem Barren.same {l : Leg} (h : l.state = s) (hc : callsIn l.effects = []) : Barren s l :=
  ⟨⟨s.tasks, rfl, h⟩, hc⟩

theorem Barren.setPhase (s : State) (i : Nat) (phase : Phase) {effects : List Effect}
    (hc : callsIn effects = []) : Barren s ⟨s.setPhase i phase, effects, none⟩ :=
  ⟨⟨s.tasks.set i phase, List.length_set, rfl⟩, hc⟩

theorem Barren.after {l : Leg} (h : Barren s l) {effects : List Effect}
    (hc : callsIn effects = []) : Barren s (l.after effects) :=
  ⟨h.state, by rw [Leg.effects_after, callsIn_append, hc, h.calls]; rfl⟩

theorem barren_giveUp (s : State) (e : FetchError) (n : Nat) : Barren s (s.giveUp e n) :=
  .same rfl rfl

theorem barren_settleAttempt (s : State) (a : Retry.Account)
    (result : Except FetchError Download) :
    Barren s (s.settleAttempt p addition i a result) := by
  unfold State.settleAttempt
  rcases Retry.settle p.config.retry .get addition a result with _ | ⟨o⟩ | ⟨cls, delay, b⟩
  · exact .setPhase s i _ (callsIn_notes _)
  · exact .same rfl (callsIn_notes _)
  · exact .setPhase s i _ (by simp)

theorem barren_settleLinks (s : State) (a : Retry.Account) (result : Except FetchError LinkTable) :
    Barren s (s.settleLinks p addition i a result) := by
  unfold State.settleLinks
  rcases Retry.settle p.config.retry p.resolverMethod addition a result with
    _ | ⟨r, n, waited⟩ | ⟨cls, delay, b⟩
  · exact .setPhase s i _ (callsIn_notes _)
  · cases r with
    | ok links => exact .same rfl (callsIn_notes _)
    | error e => exact (barren_giveUp s _ n).after (callsIn_notes _)
  · exact .setPhase s i _ (by simp)

theorem applyLinks_closed (h : s.closed = true) (links : LinkTable) :
    s.applyLinks i links = (s, [], .error .closed) := by
  rw [State.applyLinks, if_pos h]

namespace Shut

theorem complete (h : Shut s) (r : TaskResult) : Barren s (.last (s.complete now i r)) := by
  refine ⟨⟨s.tasks.set i .ended, List.length_set, ?_⟩, complete_calls s now i r⟩
  have herase : s.inFlight.erase i = s.inFlight := by rw [h.inFlight]; rfl
  change (s.complete now i r).state = _
  rw [State.complete]
  dsimp only
  rw [if_pos (by exact h.closed), herase]
  rfl

/-- **No leg of a task gets past a close.** Most legs see the flag. The others (`mark`, `refresh`
and `resume`) look at no flag, but first ask the store for a step. -/
theorem leg (h : Shut s) (pt : Point) : Barren s (s.leg p now addition i pt) := by
  cases pt with
  | ensure => rw [State.leg, State.ensureLeg, if_pos h.closed]; exact barren_giveUp ..
  | ask request a => rw [State.leg, State.askLeg, if_pos h.closed]; exact barren_giveUp ..
  | apply links attempts =>
      rw [State.leg, State.applyLeg, applyLinks_closed h.closed]
      exact (barren_giveUp ..).after rfl
  | mark attempts =>
      obtain ⟨e, he⟩ := h.move_refused i .linkResolved
      rw [State.leg, State.markLeg, he]
      exact (barren_giveUp ..).after (callsIn_notes _)
  | begin => rw [State.leg, State.beginLeg, if_pos h.closed]; exact barren_giveUp ..
  | attempt a => rw [State.leg, State.attemptLeg, if_pos h.closed]; exact barren_giveUp ..
  | refresh a =>
      obtain ⟨e, he⟩ := h.move_refused i .linkResolved
      rw [State.leg, State.refreshLeg, he]
      cases s.linkRequest i with
      | error e' => exact barren_settleAttempt ..
      | ok request => exact barren_settleAttempt ..
  | applyRefreshed links a =>
      rw [State.leg, State.applyRefreshedLeg, applyLinks_closed h.closed]
      exact (barren_settleAttempt ..).after rfl
  | resume a =>
      obtain ⟨e, he⟩ := h.move_refused i .downloading
      rw [State.leg, State.resumeLeg, he]
      exact (barren_settleAttempt ..).after (callsIn_notes _)
  | finish r => exact h.complete r

end Shut

/-- What a task does with an answer before it takes the lock moves nothing else in any case. -/
theorem barren_hear {signal : Signal} {l : Leg} (hl : s.hear p addition i signal = some l) :
    Barren s l := by
  cases State.hear_hears hl with
  | start | refreshed | asksAgain | triesAgain => exact .same rfl rfl
  | resolved => exact barren_settleLinks ..
  | unrefreshed | payload => exact barren_settleAttempt ..
  | asksNothing => exact barren_giveUp ..

/-! ## The legs of readers -/

theorem moveOn_of_closed (h : s.closed = true) :
    s.moveOn p = (s, [], .done (.error .closed)) := by
  rw [State.moveOn, if_pos h]

theorem claims_of_closed (h : s.closed = true) (n : Nat) : s.claims p n = (s, [], .waiting n) := by
  rw [State.claims, State.fill, if_neg (by simp [State.mayClaim, h])]

theorem look_of_closed (h : s.closed = true) (waited : Duration) (n : Nat) :
    s.look waited n = (s, [], .done (.error .closed)) := by
  rw [State.look, if_pos h]

/-! ## The calls on record -/

/-- The calls of the resolver and the downloader that tasks decided on, in order. -/
def callsMade (log : List Event) : List (Nat × Call) :=
  log.filterMap fun
    | .did _ effect => effect.call
    | _ => none

@[simp] theorem callsMade_append (log more : List Event) :
    callsMade (log ++ more) = callsMade log ++ callsMade more := List.filterMap_append

@[simp] theorem callsMade_did (now : Moment) (effects : List Effect) :
    callsMade (effects.map (.did now)) = callsIn effects := by
  rw [callsMade, List.filterMap_map]
  rfl

@[simp] theorem callsMade_heard (i : Nat) (signal : Signal) :
    callsMade [.heard i signal] = [] := rfl

@[simp] theorem callsMade_returned (k : Nat) (answer : Answer) :
    callsMade [.returned k answer] = [] := rfl

namespace World

variable {w w' w'' : World}

/-! ## After a close -/

/-- Nothing was asked for, and all that calls of `advance` returned is that the provider is
closed. -/
structure Declined (more : List Event) : Prop where
  calls : callsMade more = []
  answers : ∀ a ∈ answers more, a = .error .closed

theorem Declined.did {effects : List Effect} (h : callsIn effects = []) (now : Moment) :
    Declined (effects.map (.did now)) :=
  ⟨(callsMade_did now effects).trans h, by rw [answers_did]; exact nofun⟩

theorem Declined.append {more further : List Event} (h : Declined more) (h' : Declined further) :
    Declined (more ++ further) := by
  refine ⟨by rw [callsMade_append, h.calls, h'.calls]; rfl, ?_⟩
  intro a ha
  rw [answers_append] at ha
  rcases List.mem_append.1 ha with ha | ha
  · exact h.answers a ha
  · exact h'.answers a ha

/-- Only tasks moved, and whatever was asked of the provider was declined. -/
structure Still (w w' : World) : Prop where
  state : ∃ tasks, tasks.length = w.state.tasks.length ∧ w'.state = { w.state with tasks }
  log : ∃ more, w'.log = w.log ++ more ∧ Declined more

namespace Still

theorem refl (w : World) : Still w w :=
  ⟨⟨w.state.tasks, rfl, rfl⟩, [], (List.append_nil _).symm, rfl, nofun⟩

theorem trans (h : Still w w') (h' : Still w' w'') : Still w w'' := by
  obtain ⟨tasks, hlen, hs⟩ := h.state
  obtain ⟨tasks', hlen', hs'⟩ := h'.state
  obtain ⟨more, hlog, hmore⟩ := h.log
  obtain ⟨more', hlog', hmore'⟩ := h'.log
  refine ⟨⟨tasks', ?_, by rw [hs', hs]⟩, more ++ more', ?_, hmore.append hmore'⟩
  · rw [hlen', hs, hlen]
  · rw [hlog', hlog, List.append_assoc]

theorem shut (h : Still w w') (hw : Shut w.state) : Shut w'.state := by
  obtain ⟨tasks, -, hs⟩ := h.state
  rw [hs]
  exact ⟨hw.closed, hw.final, hw.empty, hw.held, hw.inFlight⟩

theorem next (h : Still w w') : w'.state.next = w.state.next := by
  obtain ⟨tasks, hlen, hs⟩ := h.state
  rw [hs]
  exact hlen

theorem store (h : Still w w') : w'.state.store = w.state.store := by
  obtain ⟨tasks, -, hs⟩ := h.state
  rw [hs]

/-- A barren leg is all there is to an action of a task. -/
theorem leg {l : Leg} (h : Barren w.state l) {more : List Event} (hmore : Declined more)
    (hlog : w'.log = w.log ++ more ++ l.effects.map (.did now)) (hs : w'.state = l.state) :
    Still w w' := by
  refine ⟨?_, more ++ l.effects.map (.did now), ?_, hmore.append (.did h.calls now)⟩
  · rw [hs]; exact h.state
  · rw [hlog, List.append_assoc]

/-- A call of `advance` is refused. -/
theorem refused (k : Nat) (wait : Nat → Reader) :
    Still w (w.runReader now k wait (w.state, [], .done (.error .closed))) := by
  refine ⟨⟨w.state.tasks, rfl, rfl⟩, [.returned k (.error .closed)], ?_, rfl, ?_⟩
  · change w.log ++ [] ++ _ = _
    rw [List.append_nil]
  · exact fun a ha => List.mem_singleton.1 ha

end Still

/-- **Nothing happens to a closed provider any more**, whatever action is taken. -/
theorem Taken.still (ht : Taken p w w') (hw : Shut w.state) : Still w w' := by
  cases ht with
  | @heard i signal l now addition hp hl =>
      have hheard : Declined [.heard i signal] := ⟨rfl, nofun⟩
      exact .leg (barren_hear hl) hheard rfl rfl
  | ran now addition hp =>
      have hnothing : Declined [] := ⟨rfl, nofun⟩
      exact .leg (hw.leg _) hnothing (by rw [List.append_nil]; rfl) rfl
  | called now hk => rw [moveOn_of_closed hw.closed]; exact .refused _ _
  | @filled k n now hk =>
      rw [claims_of_closed hw.closed]
      exact ⟨⟨w.state.tasks, rfl, rfl⟩, [], rfl, rfl, nofun⟩
  | looked now hk => rw [look_of_closed hw.closed]; exact .refused _ _
  | abandoned hk => exact ⟨⟨w.state.tasks, rfl, rfl⟩, [], (List.append_nil _).symm, rfl, nofun⟩
  | closed now =>
      rw [close_eq_of_closed hw.closed]
      exact ⟨⟨w.state.tasks, rfl, rfl⟩, [], rfl, rfl, nofun⟩

theorem still_of_steps (hw : Shut w.state) (hsteps : Relation.ReflTransGen (Step p) w w') :
    Still w w' := by
  induction hsteps with
  | refl => exact .refl w
  | tail _ hlast ih => exact ih.trans (hlast.taken.still (ih.shut hw))

/-- **Whenever a provider is closed, it is shut.** -/
theorem shut_reachable {m : Manifest} {config : FetchConfig} {method : Method} {opened : Move}
    (hcreate : create m config method = .ok (p, opened)) (h : Reachable p opened w) :
    w.state.closed = true → Shut w.state := by
  refine h.keeps (P := fun w => w.state.closed = true → Shut w.state) ?_ ?_
  · intro now hclosed
    obtain ⟨rfl, entry, rfl⟩ := create_eq hcreate
    have hopen := State.fill_closed (Setup.ofManifest m config method) (State.ofManifest m)
    exact nomatch hopen.symm.trans hclosed
  · intro w w' _ ih ht hclosed
    cases hc : w.state.closed with
    | true => exact (ht.still (ih hc)).shut (ih hc)
    | false =>
        -- the action that closed the provider was a close
        rcases ht.closed_cases with hsame | ⟨now, rfl⟩
        · rw [hc, hclosed] at hsame
          cases hsame
        · exact shut_close hc

/-- A close leaves a provider shut, closed before or not. -/
theorem shut_closed {m : Manifest} {config : FetchConfig} {method : Method} {opened : Move}
    (hcreate : create m config method = .ok (p, opened)) (h : Reachable p opened w) :
    Shut w.state.close.state := by
  cases hc : w.state.closed with
  | false => exact shut_close hc
  | true =>
      rw [close_eq_of_closed hc]
      exact shut_reachable hcreate h hc

/-- Every call of a closed provider, begun before or after the close, comes back after its own next
legs, and says that the provider is closed. -/
theorem refuses (hc : w.state.closed = true) (r : Nat) (now : Moment) :
    ∃ ts v, (∀ t ∈ ts, t.now = now ∧ t.action.isLegOf r = true) ∧ w.exec p ts = some v
      ∧ v.readers r = none ∧ answers v.log = answers w.log ++ [.error .closed] := by
  have hlegs : ∀ {a : Action}, a.isLegOf r = true →
      ∀ t ∈ [(⟨now, .zero, a⟩ : Tick)], t.now = now ∧ t.action.isLegOf r = true := by
    intro a ha t ht
    obtain rfl := List.mem_singleton.1 ht
    exact ⟨rfl, ha⟩
  have hself := beq_self_eq_true r
  have hlook : ∀ {u : World} {n : Nat}, u.state = w.state → u.readers r = some (.look n) →
      u.act p ⟨now, .zero, .look r⟩ =
        some (u.runReader now r .look (u.state, [], .done (.error .closed))) := by
    intro u n hu hr
    rw [act_look hr, look_of_closed (by rw [hu]; exact hc)]
  cases hr : w.readers r with
  | none =>
      refine ⟨[⟨now, .zero, .call r⟩],
        w.runReader now r .fill (w.state, [], .done (.error .closed)),
        hlegs hself, ?_, Function.update_self .., answers_done ..⟩
      rw [exec, act_call hr, moveOn_of_closed hc]
      rfl
  | some reader =>
      cases reader with
      | look n =>
          refine ⟨[⟨now, .zero, .look r⟩],
            w.runReader now r .look (w.state, [], .done (.error .closed)),
            hlegs hself, ?_, Function.update_self .., answers_done ..⟩
          rw [exec, hlook rfl hr]
          rfl
      | fill n =>
          -- the call claims nothing, and then looks
          let u := w.runReader now r .look (w.state, [], .waiting n)
          have hu : u.readers r = some (.look n) := Function.update_self ..
          have hans : answers u.log = answers w.log := answers_waiting ..
          refine ⟨[⟨now, .zero, .fill r⟩, ⟨now, .zero, .look r⟩],
            u.runReader now r .look (u.state, [], .done (.error .closed)), ?_, ?_,
            Function.update_self .., (answers_done ..).trans (by rw [hans])⟩
          · intro t ht
            rcases List.mem_cons.1 ht with rfl | ht
            · exact ⟨rfl, hself⟩
            · exact hlegs (a := .look r) hself t ht
          · have hfill : w.act p ⟨now, .zero, .fill r⟩ = some u := by
              rw [act_fill hr, claims_of_closed hc]
            have hthen := hlook (show u.state = w.state from rfl) hu
            rw [exec, hfill, Option.bind_some, exec, hthen]
            rfl

end World

/-- What a provider that was closed in world `w` is in a later world `v`. -/
structure Final (p : Setup) (w v : World) : Prop where
  /-- Chunks that were consumed stay so, and all others are released. -/
  chunks : v.state.store.chunks.map (·.status) =
    w.state.store.chunks.map fun d => if d.status = .consumed then .consumed else .released
  holding : v.state.store.holding = 0
  /-- The store is as the close left it. -/
  store : v.state.store = w.state.close.state.store
  held : v.state.held = 0
  inFlight : v.state.inFlight = []
  next : v.state.next = w.state.next
  /-- Since the close no task decided on a call, and calls of `advance` were refused. -/
  log : ∃ more, v.log = w.log ++ more ∧ World.Declined more
    ∧ (w.state.closed = false → ∃ now, .did now .wake ∈ more)
  /-- A call that is under way comes back, refused, and so does one that begins now. -/
  refuses : ∀ r now, ∃ ts u, (∀ t ∈ ts, t.now = now ∧ t.action.isLegOf r = true)
    ∧ v.exec p ts = some u ∧ u.readers r = none ∧ answers u.log = answers v.log ++ [.error .closed]
  noNext : v.state.hasNext p = false
  again : v.state.close = ⟨v.state, []⟩

theorem close_statuses (hw : s.closed = true → Shut s) : s.close.state.store.chunks.map (·.status) =
    s.store.chunks.map fun d => if d.status = .consumed then .consumed else .released := by
  cases hc : s.closed with
  | false =>
      rw [State.close, if_neg (by simp [hc])]
      change (s.store.chunks.map Store.releaseOne).map (·.status) = _
      rw [List.map_map]
      exact List.map_congr_left fun d _ => releaseOne_status d
  | true =>
      rw [close_eq_of_closed hc]
      refine List.map_congr_left fun d hd => ?_
      obtain ⟨i, hi⟩ := List.mem_iff_getElem?.1 hd
      rcases (hw hc).final hi with hs | hs <;> rw [hs] <;> rfl

/-- **A close is final.** Whatever the tasks and the readers of a provider are in the middle of when
it is closed or dropped, in every later world all chunks are consumed or released, nothing is held,
counted, in flight or claimed, no task has decided on a call or changed the store, all calls of
`advance` are refused, and another close does nothing. -/
theorem close_final {m : Manifest} {config : FetchConfig} {method : Method} {opened : Move}
    {w w₁ w₂ : World} {t : Tick} (hcreate : create m config method = .ok (p, opened))
    (hw : World.Reachable p opened w) (ht : t.action = .close) (hclose : w.act p t = some w₁)
    (hsteps : Relation.ReflTransGen (World.Step p) w₁ w₂) : Final p w w₂ := by
  obtain ⟨now, addition, action⟩ := t
  obtain rfl : action = .close := ht
  obtain rfl := Option.some.inj hclose
  have hbefore := World.shut_reachable hcreate hw
  have hshut := World.shut_closed hcreate hw
  have hstill := World.still_of_steps hshut hsteps
  have hlater := hstill.shut hshut
  obtain ⟨more, hlog, hmore⟩ := hstill.log
  refine ⟨?_, hlater.holding, hstill.store, hlater.held, hlater.inFlight, ?_, ?_,
    World.refuses hlater.closed, ?_, close_eq_of_closed hlater.closed⟩
  · rw [hstill.store]
    exact close_statuses hbefore
  · exact hstill.next.trans (congrArg List.length (close_tasks w.state))
  · refine ⟨w.state.close.effects.map (.did now) ++ more, ?_,
      (World.Declined.did (close_calls w.state) now).append hmore, ?_⟩
    · rw [hlog]
      exact List.append_assoc ..
    · intro hc
      refine ⟨now, List.mem_append_left _ (List.mem_map_of_mem ?_)⟩
      rw [State.close, if_neg (by simp [hc])]
      exact List.mem_cons_self
  · rw [State.hasNext, hlater.closed]
    rfl

namespace Sample

/-- Chunk 0 was read, and the reader waits for chunk 1 while its payload is under way. -/
def waitsForSecond : List Tick :=
  stretch 0 .start 3 ++ stretch 1 .start 3 ++ stretch 0 (.payload (.ok (payload 0))) 1 ++
  advancing dawn ++ advancing dawn

/-- After the close the payload arrives, and the reader looks again. -/
def tooLate : List Tick :=
  stretch 1 (.payload (.ok (payload 1))) 1 ++ [tick (.look 0), tick .close]

end Sample

end ResultChunks.Provider
