import ResultChunks.Proofs.Provider.Reading
import ResultChunks.Proofs.Provider.Record
import ResultChunks.Proofs.Provider.Slots

/-!
# The invariant of an open provider

`Consistent` puts the chunks, their tasks and the counters of a provider in one statement. It holds
of a provider that was just created and survives every action, so it holds of every reachable world
whose provider is open:

* every chunk fits its task and what the task has heard (`Fits`);
* the tasks in flight are the claimed ones that have not ended;
* the counter of slots is the number of slots that are taken, and within the bound;
* nothing is claimed any more once a chunk has failed.
-/

namespace ResultChunks.Provider

/-- **The chunks of an open provider, their tasks and the counters go together.** -/
structure Consistent (p : Setup) (s : State) (points : Nat → Option Point) (broken : Nat → Bool)
    (payloads : Nat → List Download) : Prop where
  /-- There is one descriptor per chunk. -/
  size : s.store.chunks.length = p.count
  /-- Only chunks that exist are claimed. -/
  claimed : s.next ≤ p.count
  /-- Only the tasks of claimed chunks run. -/
  pointed : ∀ {i : Nat} {pt : Point}, points i = some pt → i < s.next
  /-- Every chunk fits its task. -/
  fits : ∀ {i : Nat} {d : Descriptor}, s.store.chunks[i]? = some d →
    Fits i s.tasks[i]? (points i) (broken i) (payloads i) d
  /-- The tasks in flight are the claimed ones that have not ended. -/
  flight : ∀ {i : Nat}, i ∈ s.inFlight ↔ ∃ phase, s.tasks[i]? = some phase ∧ phase ≠ .ended
  /-- No task is in flight twice. -/
  nodup : s.inFlight.Nodup
  /-- The counter is the number of slots that are taken. -/
  held : s.held = s.occupied
  /-- No more slots are taken than are allowed. -/
  bound : s.held ≤ p.allowed
  /-- A failure stops the claims. -/
  halts : ∀ {i : Nat} {d : Descriptor}, s.store.chunks[i]? = some d → d.status = .failed →
    s.halted = true

theorem Quiet.next {i : Nat} {s s' : State} (h : Quiet i s s') : s'.next = s.next := by
  unfold State.next
  rcases h.tasks with ht | ⟨phase, _, ht⟩ <;> rw [ht]
  rw [List.length_set]

theorem Quiet.tasks_ne {i j : Nat} {s s' : State} (h : Quiet i s s') (hj : j ≠ i) :
    s'.tasks[j]? = s.tasks[j]? := by
  rcases h.tasks with ht | ⟨phase, _, ht⟩ <;> rw [ht]
  exact List.getElem?_set_ne hj.symm

theorem State.lt_next {s : State} {i : Nat} {phase : Phase} (h : s.tasks[i]? = some phase) :
    i < s.next := (List.getElem?_eq_some_iff.1 h).1

namespace Consistent

variable {p : Setup} {s : State} {points : Nat → Option Point} {broken broken' : Nat → Bool}
  {payloads payloads' : Nat → List Download} {now : Moment} {i : Nat} {phase : Phase}

/-- A claimed chunk has a descriptor. -/
theorem chunk (h : Consistent p s points broken payloads) (ht : s.tasks[i]? = some phase) :
    ∃ d, s.store.chunks[i]? = some d := by
  have h1 := State.lt_next ht
  have h2 := h.claimed
  exact Store.exists_chunk (by rw [h.size]; omega)

/-- A task that is in the middle of a stretch has not ended. -/
theorem running (h : Consistent p s points broken payloads) {pt : Point} (hp : points i = some pt) :
    ∃ phase, s.tasks[i]? = some phase ∧ phase.running = true := by
  have hi := h.pointed hp
  have ht : s.tasks[i]? = some s.tasks[i] := List.getElem?_eq_getElem hi
  obtain ⟨d, hd⟩ := h.chunk ht
  have hst := (h.fits hd).stands
  rw [ht, hp] at hst
  exact ⟨_, ht, hst.1⟩

theorem ne_ended_of_running (h : phase.running = true) : phase ≠ .ended := by
  rintro rfl
  exact nomatch h

/-- **A quiet leg keeps everything consistent, if its own chunk fits where it leads.** -/
theorem quiet (h : Consistent p s points broken payloads) {l : Leg} (hq : Quiet i s l.state)
    (ht : s.tasks[i]? = some phase) (hp : phase ≠ .ended)
    (hl : LegFits i (broken' i) (payloads' i) l) (hb : ∀ j, j ≠ i → broken' j = broken j)
    (hpay : ∀ j, j ≠ i → payloads' j = payloads j) :
    Consistent p l.state (Function.update points i l.next) broken' payloads' where
  size := hq.size.trans h.size
  claimed := by rw [hq.next]; exact h.claimed
  pointed := by
    intro j pt hj
    rw [hq.next]
    by_cases hji : j = i
    · subst hji; exact State.lt_next ht
    · rw [Function.update_of_ne hji] at hj; exact h.pointed hj
  fits := by
    intro j d hd
    by_cases hji : j = i
    · subst hji
      obtain ⟨d', phase', hd', ht', hfit⟩ := hl
      rw [hd'] at hd
      obtain rfl := Option.some.inj hd
      rw [ht', Function.update_self]
      exact hfit
    · have hlt := Store.lt_of_chunk hd
      rw [hq.size] at hlt
      obtain ⟨d₀, hd₀⟩ := Store.exists_chunk hlt
      -- another chunk gets a new link at most
      obtain ⟨o, ho, hfor⟩ := hq.others hji hd₀
      rw [ho] at hd
      obtain rfl := Option.some.inj hd
      rw [hq.tasks_ne hji, Function.update_of_ne hji, hb j hji, hpay j hji]
      exact (h.fits hd₀).relink hfor.isSome
  flight := by
    intro j
    rw [hq.inFlight, h.flight]
    by_cases hji : j = i
    · subst hji
      rcases hq.tasks with hs | ⟨phase', hp', hs⟩ <;> rw [hs]
      rw [phase_set ht]
      exact ⟨fun _ => ⟨phase', rfl, hp'⟩, fun _ => ⟨phase, ht, hp⟩⟩
    · rw [hq.tasks_ne hji]
  nodup := by rw [hq.inFlight]; exact h.nodup
  held := by rw [hq.held, State.occupied_quiet hq]; exact h.held
  bound := by rw [hq.held]; exact h.bound
  halts := by
    intro j d hd hf
    rw [hq.halted]
    have hlt := Store.lt_of_chunk hd
    rw [hq.size] at hlt
    obtain ⟨d₀, hd₀⟩ := Store.exists_chunk hlt
    by_cases hji : j = i
    · subst hji
      obtain ⟨o, st, ho, -, hst⟩ := hq.own hd₀
      rw [ho] at hd
      obtain rfl := Option.some.inj hd
      obtain rfl : st = .failed := hf
      rcases hst with hst | ⟨-, hw⟩
      · exact h.halts hd₀ hst.symm
      · exact nomatch hw
    · obtain ⟨o, ho, -⟩ := hq.others hji hd₀
      rw [ho] at hd
      obtain rfl := Option.some.inj hd
      exact h.halts hd₀ hf

/-- What the end of a task changes, apart from the counters. -/
theorem endTask (h : Consistent p s points broken payloads) {s' : State} {d' : Descriptor}
    (ht : s.tasks[i]? = some phase) (htasks : s'.tasks = (s.endTask i d').tasks)
    (hflight : s'.inFlight = (s.endTask i d').inFlight)
    (hstore : s'.store = (s.endTask i d').store)
    (hl : LegFits i (broken i) (payloads i) ⟨s', [], none⟩)
    (hheld : s'.held = s'.occupied) (hbound : s'.held ≤ p.allowed)
    (hhalt : s.halted = true → s'.halted = true) (hf : d'.status = .failed → s'.halted = true) :
    Consistent p s' (Function.update points i none) broken payloads where
  size := by rw [hstore]; exact List.length_set.trans h.size
  claimed := by
    rw [State.next, htasks, State.endTask, List.length_set]
    exact h.claimed
  pointed := by
    intro j pt hj
    rw [State.next, htasks, State.endTask, List.length_set]
    by_cases hji : j = i
    · subst hji; rw [Function.update_self] at hj; exact nomatch hj
    · rw [Function.update_of_ne hji] at hj
      exact h.pointed hj
  fits := by
    intro j d hd
    by_cases hji : j = i
    · subst hji
      obtain ⟨d₁, phase', hd₁, ht', hfit⟩ := hl
      rw [hd₁] at hd
      obtain rfl := Option.some.inj hd
      rw [ht', Function.update_self]
      exact hfit
    · rw [hstore] at hd
      rw [htasks, Function.update_of_ne hji]
      have hd₀ : s.store.chunks[j]? = some d := (Store.chunk_set_ne d' hji).symm.trans hd
      have hts : (s.tasks.set i .ended)[j]? = s.tasks[j]? := List.getElem?_set_ne (Ne.symm hji)
      have hfit := h.fits hd₀
      rw [← hts] at hfit
      exact hfit
  flight := by
    intro j
    rw [hflight, htasks]
    change j ∈ s.inFlight.erase i ↔ ∃ phase, (s.tasks.set i .ended)[j]? = some phase ∧ _
    rw [h.nodup.mem_erase_iff, h.flight]
    by_cases hji : j = i
    · subst hji
      rw [phase_set ht]
      constructor
      · rintro ⟨hne, -⟩; exact absurd rfl hne
      · rintro ⟨ph, hph, hne⟩; exact absurd (Option.some.inj hph).symm hne
    · rw [List.getElem?_set_ne (Ne.symm hji)]
      exact and_iff_right hji
  nodup := by rw [hflight]; exact h.nodup.erase i
  held := hheld
  bound := hbound
  halts := by
    intro j d hd hs
    rw [hstore] at hd
    rcases Store.chunk_of_set hd with ⟨rfl, rfl⟩ | ⟨-, hold⟩
    · exact hf hs
    · exact hhalt (h.halts hold hs)

/-- **The last leg of a task keeps everything consistent.** -/
theorem complete (h : Consistent p s points broken payloads) (hc : s.closed = false)
    {r : TaskResult} (hp : points i = some (.finish r)) :
    Consistent p (s.complete now i r).state (Function.update points i none) broken payloads := by
  obtain ⟨phase, ht, hr⟩ := h.running hp
  obtain ⟨d, hd⟩ := h.chunk ht
  have hfit := h.fits hd
  rw [ht, hp] at hfit
  have hlast : LegFits i (broken i) (payloads i) (.last (s.complete now i r)) :=
    complete_fits hc ht hd hfit
  have hocc := ChunkStatus.occupies_of_wantsLink hfit.wantsLink_of_finish
  have hlt := State.lt_next ht
  have hheld := h.held
  have hbound := h.bound
  rcases complete_cases now hc hd hfit with ⟨dl, -, -, hs⟩ | ⟨e, hs, -⟩
  · refine h.endTask ht (by rw [hs]; rfl) (by rw [hs]; rfl) (by rw [hs]; rfl) hlast ?_ ?_ ?_ ?_
    · rw [hs, State.occupied_stored hlt hd hocc]; exact hheld
    · rw [hs]; exact hbound
    · rw [hs]; exact id
    · intro hf; exact nomatch hf
  · have hcount := State.occupied_failed hlt hd hocc r.attempts e
    refine h.endTask ht (by rw [hs]; rfl) (by rw [hs]; rfl) (by rw [hs]; rfl) hlast ?_ ?_ ?_ ?_
    · rw [hs]
      change s.held - 1 = _
      omega
    · rw [hs]
      change s.held - 1 ≤ _
      omega
    · rw [hs]; exact fun _ => rfl
    · rw [hs]; exact fun _ => rfl

/-! ### The legs of a reader -/

/-- A claim keeps everything consistent. -/
theorem claim (h : Consistent p s points broken payloads) (hm : s.mayClaim p = true) :
    Consistent p (s.claim p).state points broken payloads := by
  simp only [State.mayClaim, Bool.and_eq_true, Bool.not_eq_true', decide_eq_true_eq] at hm
  obtain ⟨⟨⟨-, hhalt⟩, hnext⟩, hroom⟩ := hm
  -- the chunk that is claimed is the first one without a task
  obtain ⟨d, hd⟩ := Store.exists_chunk (s := s.store) (i := s.next) (by rw [h.size]; exact hnext)
  have hnone : s.tasks[s.next]? = none := List.getElem?_eq_none (Nat.le_refl _)
  have hpoint : points s.next = none := by
    cases hp : points s.next with
    | none => rfl
    | some pt => exact absurd (h.pointed hp) (Nat.lt_irrefl _)
  have hfit := h.fits hd
  rw [hnone, hpoint] at hfit
  have hst : d.status = .pending ∧ broken s.next = false := hfit.stands
  have hlen : (s.tasks ++ [Phase.claimed]).length = s.next + 1 := List.length_append
  have hself : (s.tasks ++ [Phase.claimed])[s.next]? = some .claimed :=
    List.getElem?_concat_length
  have hother : ∀ {j : Nat}, j ≠ s.next → (s.tasks ++ [Phase.claimed])[j]? = s.tasks[j]? := by
    intro j hj
    rcases Nat.lt_or_ge j s.next with hlt | hge
    · exact List.getElem?_append_left hlt
    · rw [List.getElem?_eq_none (by rw [hlen]; omega), List.getElem?_eq_none hge]
  exact {
    size := h.size
    claimed := by
      change (s.tasks ++ [Phase.claimed]).length ≤ p.count
      rw [hlen]
      exact hnext
    pointed := by
      intro i pt hp
      change i < (s.tasks ++ [Phase.claimed]).length
      rw [hlen]
      exact Nat.lt_succ_of_lt (h.pointed hp)
    fits := by
      intro i di hi
      change Fits i (s.tasks ++ [Phase.claimed])[i]? (points i) (broken i) (payloads i) di
      by_cases hin : i = s.next
      · subst hin
        have hi' : s.store.chunks[s.next]? = some di := hi
        rw [hd] at hi'
        obtain rfl := Option.some.inj hi'
        rw [hself, hpoint]
        exact (hfit.atWork (by rw [hst.1]; rfl) nofun).waits hst
      · rw [hother hin]
        exact h.fits hi
    flight := by
      intro i
      change i ∈ s.inFlight ++ [s.next]
        ↔ ∃ phase, (s.tasks ++ [Phase.claimed])[i]? = some phase ∧ _
      rw [List.mem_append, List.mem_singleton, h.flight]
      by_cases hin : i = s.next
      · subst hin
        rw [hself]
        exact ⟨fun _ => ⟨.claimed, rfl, nofun⟩, fun _ => Or.inr rfl⟩
      · rw [hother hin]
        exact or_iff_left hin
    nodup := by
      refine List.nodup_append.2 ⟨h.nodup, by simp, ?_⟩
      rintro i hi j hj rfl
      obtain rfl := List.mem_singleton.1 hj
      obtain ⟨phase, hph, -⟩ := h.flight.1 hi
      rw [hnone] at hph
      exact nomatch hph
    held := by
      rw [State.occupied_claim hd (by rw [hst.1]; rfl), ← h.held]
      rfl
    bound := hroom
    halts := h.halts }

/-- A fill keeps everything consistent. -/
theorem fill (h : Consistent p s points broken payloads) :
    Consistent p (s.fill p).state points broken payloads :=
  State.fill_keeps (P := fun s => Consistent p s points broken payloads)
    (fun hm h => h.claim hm) h

/-- Consuming the chunk handed out last keeps everything consistent. -/
theorem consumes {s' : State} (h : Consistent p s points broken payloads) (hs : s.Consumes s') :
    Consistent p s' points broken payloads := by
  cases hs with
  | nothing _ => exact h
  | @one i d _ hd hs =>
      have hfit := h.fits hd
      obtain ⟨hended, hpoint⟩ := hfit.ended (Or.inl hs)
      have hlt : i < s.next := State.lt_next hended
      have hcount := State.occupied_consumed hlt hd (by rw [hs]; rfl) { d with
        status := .consumed, batches := none } rfl
      have hheld := h.held
      have hbound := h.bound
      have hpaid := hfit.paid
      rw [hended, hpoint] at hfit
      rw [hpoint] at hpaid
      refine { h with
        size := List.length_set.trans h.size
        fits := ?_, held := ?_, bound := ?_, halts := ?_ }
      · intro j dj hdj
        rcases Store.chunk_of_set hdj with ⟨rfl, rfl⟩ | ⟨-, hold⟩
        · change Fits j s.tasks[j]? (points j) (broken j) (payloads j) _
          rw [hended, hpoint]
          exact {
            stands := Or.inr (Or.inl rfl)
            linked := fun _ => hfit.linked (by rw [hs]; rfl)
            marked := nofun
            batches := ⟨nofun, nofun⟩
            error := by
              have he := hfit.error
              rw [hs] at he
              exact ⟨fun h' => (nomatch he.1 h'), nofun⟩
            paid := by
              change Settles j (broken j) (payloads j) d at hpaid
              unfold Settles at hpaid
              rw [hs] at hpaid
              obtain ⟨dl, h1, -, h2⟩ := hpaid
              exact ⟨dl, h1, h2⟩ }
        · exact h.fits hold
      · change s.held - 1 = State.occupied { s with store := ⟨s.store.chunks.set i _⟩ }
        omega
      · change s.held - 1 ≤ _
        omega
      · intro j dj hdj hf
        rcases Store.chunk_of_set hdj with ⟨-, rfl⟩ | ⟨-, hold⟩
        · exact nomatch hf
        · exact h.halts hold hf

/-- Nothing depends on what was handed out. -/
theorem ofHandedOut (h : Consistent p s points broken payloads) (current : Int)
    (surfaced : Option FetchError) :
    Consistent p { s with current, surfaced } points broken payloads := { h with }

theorem moves (h : Consistent p s points broken payloads) {r : State × List Effect × Progress}
    (hr : s.Moves p r) : Consistent p r.1 points broken payloads := by
  cases hr with
  | again _ => exact h
  | past effects _ hr _ => exact (h.consumes hr).ofHandedOut _ _
  | ahead effects _ hr _ => exact h.consumes hr

/-- A look keeps everything consistent, whatever it looks for. -/
theorem look (h : Consistent p s points broken payloads) (waited : Duration) (n : Nat) :
    Consistent p (s.look waited n).1 points broken payloads := by
  rw [State.look]
  split
  · exact h
  · split
    · exact h
    · dsimp only
      split
      · exact h.ofHandedOut _ _
      · exact h.ofHandedOut _ _
      all_goals exact h

end Consistent

/-! ## Every reachable world -/

theorem create_eq {m : Manifest} {config : FetchConfig} {method : Method} {p : Setup}
    {opened : Move} (h : create m config method = .ok (p, opened)) :
    p = Setup.ofManifest m config method
      ∧ ∃ entry, opened = ((State.ofManifest m).fill p).after [Effect.note entry] := by
  unfold create at h
  cases hv : config.validate with
  | error e => rw [hv] at h; exact nomatch h
  | ok u =>
      rw [hv] at h
      obtain ⟨rfl, rfl⟩ := Prod.mk.inj (Except.ok.inj h)
      exact ⟨rfl, _, rfl⟩

/-- Before the first claim everything is consistent. -/
theorem consistent_ofManifest (m : Manifest) (config : FetchConfig) (method : Method) :
    Consistent (Setup.ofManifest m config method) (State.ofManifest m) (fun _ => none)
      (fun _ => false) (fun _ => []) where
  size := List.length_map _
  claimed := Nat.zero_le _
  pointed := nofun
  fits := by
    intro i d hd
    obtain ⟨c, -, rfl⟩ := List.mem_map.1 (List.mem_of_getElem? hd)
    exact {
      stands := ⟨rfl, rfl⟩
      linked := nofun
      marked := nofun
      batches := ⟨nofun, nofun⟩
      error := ⟨nofun, nofun⟩
      paid := rfl }
  flight := ⟨nofun, by rintro ⟨phase, hph, -⟩; exact nomatch hph⟩
  nodup := List.nodup_nil
  held := rfl
  bound := Nat.zero_le _
  halts := by
    intro i d hd hf
    obtain ⟨c, -, rfl⟩ := List.mem_map.1 (List.mem_of_getElem? hd)
    exact nomatch hf

namespace World

variable {p : Setup} {w w' : World}

/-- **While its provider is open, a world is sound.** -/
def Sound (p : Setup) (w : World) : Prop :=
  w.state.closed = false → Consistent p w.state w.points w.broken w.payloads

/-- A leg of a task neither closes a provider nor opens it. -/
theorem leg_closed (s : State) (now : Moment) (addition : Duration) (i : Nat) (pt : Point) :
    (s.leg p now addition i pt).state.closed = s.closed := by
  by_cases hpt : ∃ r, pt = .finish r
  · obtain ⟨r, rfl⟩ := hpt
    exact State.complete_closed s now i r
  · exact (State.leg_quiet p s now addition i (not_exists.1 hpt)).closed

/-- Only a close closes a provider, and nothing opens it again. -/
theorem Taken.closed_cases (h : Taken p w w') : w'.state.closed = w.state.closed
    ∨ ∃ now, w' = w.move now w.state.close.state w.state.close.effects := by
  cases h with
  | heard now hp hl => exact Or.inl (State.hear_quiet hl).closed
  | ran now addition hp => exact Or.inl (leg_closed ..)
  | called now hk => exact Or.inl (by rw [state_runReader, State.moveOn_closed])
  | filled now hk => exact Or.inl (State.fill_closed p _)
  | looked now hk => exact Or.inl (by rw [state_runReader, State.look_closed])
  | abandoned hk => exact Or.inl rfl
  | closed now => exact Or.inr ⟨now, rfl⟩

theorem Taken.open (h : Taken p w w') (hc : w'.state.closed = false) : w.state.closed = false := by
  rcases h.closed_cases with hsame | ⟨now, rfl⟩
  · rw [← hsame]; exact hc
  · exact absurd hc (not_open_of_close w _)

/-- **What holds in every solo world with an open provider, is kept by its close, and is kept by
whatever happens later, holds in every solo world.** -/
theorem SoloReachable.of_open {m : Manifest} {config : FetchConfig} {method : Method} {opened : Move}
    {P : World → Prop} (hcreate : create m config method = .ok (p, opened))
    (h : SoloReachable p opened w)
    (hopen : ∀ {w : World}, SoloReachable p opened w → w.state.closed = false → P w)
    (hclose : ∀ {w : World} (now : Moment), SoloReachable p opened w → w.state.closed = false →
      P w → P (w.move now w.state.close.state w.state.close.effects))
    (hlater : ∀ {w w' : World}, SoloReachable p opened w → w.state.closed = true → P w →
      Taken p w w' → P w') : P w := by
  have hw := h
  obtain ⟨now, hsteps⟩ := h
  induction hsteps with
  | refl =>
      refine hopen hw ?_
      obtain ⟨rfl, entry, rfl⟩ := create_eq hcreate
      exact State.fill_closed _ (State.ofManifest m)
  | @tail v w hpast hlast ih =>
      have hv : SoloReachable p opened v := ⟨now, hpast⟩
      have hbefore := ih hv
      have ht := hlast.1.taken
      cases hc : w.state.closed with
      | false => exact hopen hw hc
      | true =>
          cases hc' : v.state.closed with
          | true => exact hlater hv hc' hbefore ht
          | false =>
              rcases ht.closed_cases with hsame | ⟨now', rfl⟩
              · rw [hc, hc'] at hsame
                cases hsame
              · exact hclose now' hv hc' hbefore

theorem sound_start {m : Manifest} {config : FetchConfig} {method : Method} {opened : Move}
    (h : create m config method = .ok (p, opened)) (now : Moment) : Sound p (start now opened) := by
  intro _
  obtain ⟨rfl, entry, rfl⟩ := create_eq h
  rw [broken_start, payloads_start]
  exact (consistent_ofManifest m config method).fill

/-- **Every action keeps a world sound.** -/
theorem sound_taken (h : Sound p w) (ht : Taken p w w') : Sound p w' := by
  intro hc'
  have hc := ht.open hc'
  have hw := h hc
  cases ht with
  | @heard i signal l now addition hp hl =>
      obtain ⟨phase, hph, hne⟩ := State.hear_phase hl
      obtain ⟨d, hd⟩ := hw.chunk hph
      have hfit := hw.fits hd
      rw [hph, hp] at hfit
      rw [broken_runLeg, payloads_runLeg]
      refine hw.quiet (State.hear_quiet hl) hph hne ?_ ?_ ?_
      · rw [broken_hears, payloads_hears]
        exact hear_fits hph hd hfit hl
      · exact fun j hj => broken_hears_ne w signal hj
      · exact fun j hj => payloads_hears_ne w signal hj
  | @ran i pt now addition hp =>
      rw [broken_runLeg, payloads_runLeg]
      by_cases hpt : ∃ r, pt = .finish r
      · obtain ⟨r, rfl⟩ := hpt
        exact hw.complete hc hp
      · obtain ⟨phase, hph, hr⟩ := hw.running hp
        obtain ⟨d, hd⟩ := hw.chunk hph
        have hfit := hw.fits hd
        rw [hph, hp] at hfit
        have hpt' := not_exists.1 hpt
        exact hw.quiet (State.leg_quiet p w.state now addition i hpt') hph
          (Consistent.ne_ended_of_running hr) (leg_fits hc hpt' hph hd hfit)
          (fun _ _ => rfl) (fun _ _ => rfl)
  | called now hk =>
      rw [state_runReader, points_runReader, broken_runReader, payloads_runReader]
      exact hw.moves (State.moveOn_moves hc hw.size)
  | filled now hk =>
      rw [state_runReader, points_runReader, broken_runReader, payloads_runReader]
      exact hw.fill
  | @looked k n now hk =>
      rw [state_runReader, points_runReader, broken_runReader, payloads_runReader]
      exact hw.look _ _
  | abandoned hk => exact hw
  | closed now => exact absurd hc' (not_open_of_close w now)

/-- **Every reachable world is sound.** -/
theorem sound_reachable {m : Manifest} {config : FetchConfig} {method : Method} {opened : Move}
    (hcreate : create m config method = .ok (p, opened)) (h : Reachable p opened w) : Sound p w :=
  h.keeps (sound_start hcreate) fun _ => sound_taken

end World

end ResultChunks.Provider
