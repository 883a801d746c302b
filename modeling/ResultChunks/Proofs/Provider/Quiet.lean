import ResultChunks.Proofs.Chunk.Store
import ResultChunks.Proofs.Provider.Leg

/-!
# Legs that settle nothing

Only the last leg of a task settles its chunk. Any other leg is quiet: it counts nothing, ends
nothing, and touches other chunks only by storing links for them. Its own chunk stays at work. What
is counted over all chunks therefore changes with `complete` and the reader's legs alone.
-/

namespace ResultChunks.Provider

/-- The link of a chunk is the one it had, or one that names it. -/
def LinkFor (j : Nat) (d : Descriptor) (o : Option Link) : Prop :=
  o = d.link ∨ (d.status.wantsLink = true ∧ ∃ l, o = some l ∧ l.chunkIndex = j)

theorem LinkFor.isSome {j : Nat} {d : Descriptor} {o : Option Link} (h : LinkFor j d o)
    (hl : d.link.isSome = true) : o.isSome = true := by
  rcases h with rfl | ⟨_, l, rfl, _⟩
  · exact hl
  · rfl

/-- Nothing happened but to the task of one chunk, which is still at work, and to links. -/
structure Quiet (i : Nat) (s s' : State) : Prop where
  closed : s'.closed = s.closed
  halted : s'.halted = s.halted
  held : s'.held = s.held
  peak : s'.peak = s.peak
  current : s'.current = s.current
  surfaced : s'.surfaced = s.surfaced
  inFlight : s'.inFlight = s.inFlight
  /-- The task goes on or is lost, but does not end here. -/
  tasks : s'.tasks = s.tasks ∨ ∃ phase, phase ≠ .ended ∧ s'.tasks = s.tasks.set i phase
  size : s'.store.chunks.length = s.store.chunks.length
  /-- The chunk stays at work if its status changes at all. -/
  own : ∀ {d : Descriptor}, s.store.chunks[i]? = some d →
    ∃ o st, s'.store.chunks[i]? = some { d with link := o, status := st } ∧ LinkFor i d o
      ∧ (st = d.status ∨ (d.status.wantsLink = true ∧ st.wantsLink = true))
  /-- Other chunks get links. -/
  others : ∀ {j : Nat} {d : Descriptor}, j ≠ i → s.store.chunks[j]? = some d →
    ∃ o, s'.store.chunks[j]? = some { d with link := o } ∧ LinkFor j d o

namespace Quiet

variable {i : Nat} {s s' s'' : State}

theorem refl (i : Nat) (s : State) : Quiet i s s where
  closed := rfl
  halted := rfl
  held := rfl
  peak := rfl
  current := rfl
  surfaced := rfl
  inFlight := rfl
  tasks := Or.inl rfl
  size := rfl
  own := fun {d} hd => ⟨d.link, d.status, hd, Or.inl rfl, Or.inl rfl⟩
  others := fun {_ d} _ hd => ⟨d.link, hd, Or.inl rfl⟩

theorem trans (h : Quiet i s s') (h' : Quiet i s' s'') : Quiet i s s'' where
  closed := h'.closed.trans h.closed
  halted := h'.halted.trans h.halted
  held := h'.held.trans h.held
  peak := h'.peak.trans h.peak
  current := h'.current.trans h.current
  surfaced := h'.surfaced.trans h.surfaced
  inFlight := h'.inFlight.trans h.inFlight
  tasks := by
    rcases h'.tasks with h2 | ⟨phase, hp, h2⟩
    · rw [h2]; exact h.tasks
    · refine Or.inr ⟨phase, hp, ?_⟩
      rcases h.tasks with h1 | ⟨phase', _, h1⟩
      · rw [h2, h1]
      · rw [h2, h1, List.set_set]
  size := h'.size.trans h.size
  own := by
    intro d hd
    obtain ⟨o, st, h1, h2, h3⟩ := h.own hd
    obtain ⟨o', st', h1', h2', h3'⟩ := h'.own h1
    refine ⟨o', st', h1', ?_, ?_⟩
    -- a link that is new in the second step is new in both, since the status wanted one before
    · rcases h2' with rfl | ⟨hw, hl⟩
      · exact h2
      · refine Or.inr ⟨?_, hl⟩
        rcases h3 with rfl | ⟨hw', _⟩
        · exact hw
        · exact hw'
    · rcases h3' with rfl | ⟨hw, hw'⟩
      · exact h3
      · refine Or.inr ⟨?_, hw'⟩
        rcases h3 with rfl | ⟨hw'', _⟩
        · exact hw
        · exact hw''
  others := by
    intro j d hj hd
    obtain ⟨o, h1, h2⟩ := h.others hj hd
    obtain ⟨o', h1', h2'⟩ := h'.others hj h1
    refine ⟨o', h1', ?_⟩
    rcases h2' with rfl | hn
    · exact h2
    · exact Or.inr hn

/-- The task waits for something. -/
theorem setPhase (i : Nat) (s : State) {phase : Phase} (h : phase ≠ .ended) :
    Quiet i s (s.setPhase i phase) :=
  { refl i s with tasks := Or.inr ⟨phase, h, rfl⟩ }

/-- A chunk at work changes its status and stays at work. -/
theorem move {store : Store} {next : ChunkStatus} (h : s.store.move i next = .ok store)
    (hn : next = .linkResolved ∨ next = .downloading) : Quiet i s { s with store } := by
  unfold Store.move Store.moveWith at h
  cases hg : s.store.get i with
  | error e => rw [hg] at h; exact nomatch h
  | ok d =>
      rw [hg] at h
      obtain ⟨_, hd⟩ := Store.of_get_eq_ok hg
      rw [Int.toNat_natCast] at hd
      change (if d.status.leadsTo next then _ else _) = _ at h
      split at h
      · rename_i hl
        obtain rfl := Except.ok.inj h
        refine { refl i s with size := List.length_set, own := ?_, others := ?_ }
        · intro d' hd'
          rw [hd] at hd'
          obtain rfl := Option.some.inj hd'
          exact ⟨d.link, next, Store.chunk_set_self hd _, Or.inl rfl,
            Or.inr (ChunkStatus.wantsLink_of_leadsTo hl hn)⟩
        · intro j d' hj hd'
          exact ⟨d'.link, (Store.chunk_set_ne _ hj).trans hd', Or.inl rfl⟩
      · exact nomatch h

/-- Chunks get links. -/
theorem relinked {store : Store} {links : List Link} (h : Store.Relinked links s.store store) :
    Quiet i s { s with store } := by
  refine { refl i s with size := h.size, own := ?_, others := ?_ }
  · intro d hd
    obtain ⟨o, h1, h2⟩ := h.chunk hd
    refine ⟨o, d.status, h1, ?_, Or.inl rfl⟩
    rcases h2 with h2 | ⟨hw, l, _, hl⟩
    · exact Or.inl h2
    · exact Or.inr ⟨hw, l, hl⟩
  · intro j d _ hd
    obtain ⟨o, h1, h2⟩ := h.chunk hd
    refine ⟨o, h1, ?_⟩
    rcases h2 with h2 | ⟨hw, l, _, hl⟩
    · exact Or.inl h2
    · exact Or.inr ⟨hw, l, hl⟩

end Quiet

/-! ## Links of an answer -/

theorem State.applyLink_relinked (store : Store) (l : Link) :
    Store.Relinked [l] store (applyLink store l).1 := by
  unfold applyLink
  split
  · rename_i store' h; exact Store.setLink_relinked h
  · rename_i store' h; exact Store.setLink_relinked h
  · exact Store.Relinked.refl _ _

theorem State.applyAll_relinked (store : Store) (links : List Link) :
    Store.Relinked links store (applyAll store links).1 := by
  induction links generalizing store with
  | nil => exact Store.Relinked.refl _ _
  | cons l ls ih =>
      have h1 : Store.Relinked (l :: ls) store _ := (applyLink_relinked store l).mono
        (fun m hm => by rw [List.mem_singleton.1 hm]; exact List.mem_cons_self)
      have h2 : Store.Relinked (l :: ls) (applyLink store l).1 _ := (ih _).mono
        (fun m hm => List.mem_cons_of_mem _ hm)
      exact h1.trans h2

/-- While the provider is open, the links of an answer are stored, and the chunk they were asked for
must have one then. -/
theorem State.applyLinks_eq {s : State} {i : Nat} {d : Descriptor} (links : LinkTable)
    (hc : s.closed = false) (hd : s.store.chunks[i]? = some d) :
    ∃ store entries o, s.applyLinks i links = ({ s with store }, notes entries,
        if o.isSome then .ok () else .error (.invalidManifest (.noLinkResolved i)))
      ∧ Store.Relinked (links.map Prod.snd) s.store store
      ∧ store.chunks[i]? = some { d with link := o } := by
  have hr := applyAll_relinked s.store (links.map Prod.snd)
  obtain ⟨o, ho, _⟩ := hr.chunk hd
  refine ⟨_, (applyAll s.store (links.map Prod.snd)).2, o, ?_, hr, ho⟩
  rw [applyLinks, if_neg (by simp [hc])]
  dsimp only
  rw [Store.get_eq_ok ho]

/-! ## Settling an attempt -/

/-- A failed attempt never makes an operation succeed. -/
theorem settle_error_finished {α : Type} {policy : RetryPolicy} {m : Method} {addition : Duration}
    {a : Retry.Account} {e : FetchError} {o : Outcome α}
    (h : Retry.settle policy m addition a (.error e) = some (.finished o)) :
    ∃ e', o.result = .error e' := by
  unfold Retry.settle at h
  split at h
  · rename_i hv; exact nomatch hv
  · obtain rfl := Retry.Turn.finished.inj (Option.some.inj h)
    exact ⟨_, rfl⟩
  · split at h
    · exact nomatch h
    · obtain rfl := Retry.Turn.finished.inj (Option.some.inj h)
      exact ⟨_, rfl⟩
    · exact nomatch h

namespace State

/-- A payload that arrived ends the operation. -/
theorem settleAttempt_ok (p : Setup) (s : State) (addition : Duration) (i : Nat)
    (a : Retry.Account) (dl : Download) : settleAttempt p s addition i a (.ok dl) =
      ⟨s, [], some (.finish ⟨.ok dl, a.attempts⟩)⟩ := rfl

/-- Links that arrived end the operation. -/
theorem settleLinks_ok (p : Setup) (s : State) (addition : Duration) (i : Nat)
    (a : Retry.Account) (links : LinkTable) : settleLinks p s addition i a (.ok links) =
      ⟨s, [], some (.apply links a.attempts)⟩ := rfl

/-- A failed attempt ends the task with an error, or the task waits, or it is lost. -/
theorem settleAttempt_error (p : Setup) (s : State) (addition : Duration) (i : Nat)
    (a : Retry.Account) (e : FetchError) :
    (∃ effects e' n, settleAttempt p s addition i a (.error e) =
        ⟨s, effects, some (.finish ⟨.error e', n⟩)⟩)
      ∨ ∃ effects phase, settleAttempt p s addition i a (.error e) = ⟨s.setPhase i phase, effects, none⟩
        ∧ (phase = .lost ∨ ∃ b, phase = .downloadPause b) := by
  unfold settleAttempt
  rcases ht : Retry.settle p.config.retry .get addition a (.error e) with
    _ | ⟨r, n, waited⟩ | ⟨cls, delay, b⟩
  · exact Or.inr ⟨_, _, rfl, Or.inl rfl⟩
  · obtain ⟨e', rfl⟩ : ∃ e', r = .error e' := settle_error_finished ht
    exact Or.inl ⟨_, e', n, rfl⟩
  · exact Or.inr ⟨_, _, rfl, Or.inr ⟨b, rfl⟩⟩

/-- A failed question for links ends the task with an error, or the task waits, or it is lost. -/
theorem settleLinks_error (p : Setup) (s : State) (addition : Duration) (i : Nat)
    (a : Retry.Account) (e : FetchError) :
    (∃ effects e' n, settleLinks p s addition i a (.error e) =
        ⟨s, effects, some (.finish ⟨.error e', n⟩)⟩)
      ∨ ∃ effects phase, settleLinks p s addition i a (.error e) = ⟨s.setPhase i phase, effects, none⟩
        ∧ (phase = .lost ∨ ∃ b, phase = .resolvePause b) := by
  unfold settleLinks
  rcases ht : Retry.settle p.config.retry p.resolverMethod addition a (.error e) with
    _ | ⟨r, n, waited⟩ | ⟨cls, delay, b⟩
  · exact Or.inr ⟨_, _, rfl, Or.inl rfl⟩
  · obtain ⟨e', rfl⟩ : ∃ e', r = .error e' := settle_error_finished ht
    exact Or.inl ⟨_, .linkResolution [i] e', n, rfl⟩
  · exact Or.inr ⟨_, _, rfl, Or.inr ⟨b, rfl⟩⟩

/-! ## Which legs are quiet -/

theorem settleAttempt_quiet (p : Setup) (s : State) (addition : Duration) (i : Nat)
    (a : Retry.Account) (result : Except FetchError Download) :
    Quiet i s (settleAttempt p s addition i a result).state := by
  cases result with
  | ok dl => exact Quiet.refl i s
  | error e =>
      obtain ⟨effects, e', n, h⟩ | ⟨effects, phase, h, hp⟩ := settleAttempt_error p s addition i a e
      · rw [h]; exact Quiet.refl i s
      · rw [h]
        refine Quiet.setPhase i s ?_
        rcases hp with rfl | ⟨b, rfl⟩ <;> exact nofun

theorem settleLinks_quiet (p : Setup) (s : State) (addition : Duration) (i : Nat)
    (a : Retry.Account) (result : Except FetchError LinkTable) :
    Quiet i s (settleLinks p s addition i a result).state := by
  cases result with
  | ok links => exact Quiet.refl i s
  | error e =>
      obtain ⟨effects, e', n, h⟩ | ⟨effects, phase, h, hp⟩ := settleLinks_error p s addition i a e
      · rw [h]; exact Quiet.refl i s
      · rw [h]
        refine Quiet.setPhase i s ?_
        rcases hp with rfl | ⟨b, rfl⟩ <;> exact nofun

theorem applyLinks_quiet {s s' : State} {i : Nat} {links : LinkTable} {effects : List Effect}
    {checked : Except FetchError Unit} (h : s.applyLinks i links = (s', effects, checked)) :
    Quiet i s s' := by
  unfold applyLinks at h
  split at h
  · obtain ⟨rfl, -⟩ := Prod.mk.inj h; exact Quiet.refl i s
  · obtain ⟨rfl, -⟩ := Prod.mk.inj h
    exact Quiet.relinked (applyAll_relinked s.store (links.map Prod.snd))

/-- **Every leg but the last one of a task is quiet.** -/
theorem leg_quiet (p : Setup) (s : State) (now : Moment) (addition : Duration) (i : Nat)
    {pt : Point} (hpt : ∀ r, pt ≠ .finish r) : Quiet i s (s.leg p now addition i pt).state := by
  have hruns := leg_runs p s now addition i pt
  generalize s.leg p now addition i pt = l at hruns
  cases hruns with
  | givesUp | unlinked | expired => exact Quiet.refl i s
  | fails => exact settleAttempt_quiet ..
  | overruns | asks | downloads => exact Quiet.setPhase i s (by simp)
  | linked _ _ _ hm | marked hm => exact Quiet.move hm (Or.inl rfl)
  | begins _ hm => exact Quiet.move hm (Or.inr rfl)
  | applied ha | unapplied ha | renews ha => exact applyLinks_quiet ha
  | refreshes _ hm => exact (Quiet.move hm (Or.inl rfl)).trans (Quiet.setPhase i _ (by simp))
  | unrenewed ha => exact (applyLinks_quiet ha).trans (settleAttempt_quiet ..)
  | resumes hm => exact (Quiet.move hm (Or.inr rfl)).trans (Quiet.setPhase i _ (by simp))
  | loses hm => exact (Quiet.move hm (Or.inr rfl)).trans (settleAttempt_quiet ..)
  | finishes r => exact absurd rfl (hpt r)

/-- Only a task that has not ended hears anything. -/
theorem hear_phase {p : Setup} {s : State} {addition : Duration} {i : Nat} {signal : Signal}
    {l : Leg} (h : s.hear p addition i signal = some l) :
    ∃ phase, s.tasks[i]? = some phase ∧ phase ≠ .ended := by
  cases hear_hears h with
  | start ht | resolved ht | refreshed ht | unrefreshed ht | payload ht | asksAgain ht
  | asksNothing ht | triesAgain ht => exact ⟨_, ht, by simp⟩

/-- Hearing an answer is quiet. -/
theorem hear_quiet {p : Setup} {s : State} {addition : Duration} {i : Nat} {signal : Signal}
    {l : Leg} (h : s.hear p addition i signal = some l) : Quiet i s l.state := by
  cases hear_hears h with
  | start | refreshed | asksAgain | asksNothing | triesAgain => exact Quiet.refl i s
  | resolved => exact settleLinks_quiet ..
  | unrefreshed | payload => exact settleAttempt_quiet ..

end State

end ResultChunks.Provider
