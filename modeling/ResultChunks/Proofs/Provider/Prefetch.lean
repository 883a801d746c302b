import ResultChunks.Proofs.Provider.Failure

/-!
# Nobody waits in vain, and no slot stays idle

Chunks are claimed by the calls of `advance` alone, never when a task ends, and not at all any more
once a chunk has failed. So it has to be shown that a call never goes to sleep on a chunk that was
not claimed. The argument counts slots. After the claims of a call the provider is full, or all
chunks are claimed, or a chunk has failed. The reader has consumed the chunks before the one it
looks for, and these take no slots. If nothing after them were claimed, no slot would be taken and
no chunk failed, and the provider would be neither full nor done.

The same count says when a chunk is claimed. With `a` slots, chunk `k` is claimed after chunk
`k - a` was consumed, and before the call that consumed it goes to sleep.
-/

namespace ResultChunks.Provider

/-! ## Counting slots -/

theorem countP_take_le_sub {α : Type} {f : α → Bool} {l : List α} {g : Nat}
    (h : ∀ {i : Nat} {a : α}, i < g → l[i]? = some a → f a = false) (n : Nat) :
    (l.take n).countP f ≤ n - g := by
  induction n with
  | zero => exact Nat.zero_le _
  | succ n ih =>
      rw [List.take_add_one, List.countP_append]
      cases ha : l[n]? with
      | none => exact Nat.le_trans ih (by omega)
      | some a =>
          rw [Option.toList_some, List.countP_singleton]
          rcases Nat.lt_or_ge n g with hlt | hge
          · rw [if_neg (by simp [h hlt ha])]
            omega
          · have hone : (if f a = true then 1 else 0) ≤ 1 := by split <;> omega
            omega

theorem sub_le_countP_take {α : Type} {f : α → Bool} {l : List α} {g n : Nat} (hn : n ≤ l.length)
    (h : ∀ {i : Nat} {a : α}, g ≤ i → i < n → l[i]? = some a → f a = true) :
    n - g ≤ (l.take n).countP f := by
  induction n with
  | zero => rw [Nat.zero_sub]; exact Nat.zero_le _
  | succ n ih =>
      have ih := ih (by omega) fun hg hi => h hg (by omega)
      rw [List.take_add_one, List.countP_append, List.getElem?_eq_getElem (by omega),
        Option.toList_some, List.countP_singleton]
      rcases Nat.lt_or_ge n g with hlt | hge
      · omega
      · rw [if_pos (h hge (Nat.lt_succ_self n) (List.getElem?_eq_getElem (by omega)))]
        omega

variable {p : Setup} {s s' : State} {points : Nat → Option Point} {broken : Nat → Bool}
  {payloads : Nat → List Download}

/-! ## What claims and failures have to do with each other -/

/-- A chunk failed. -/
def State.HasFailed (s : State) : Prop :=
  ∃ (i : Nat) (d : Descriptor), s.store.chunks[i]? = some d ∧ d.status = .failed

/-- The chunk was consumed. -/
def State.IsConsumed (s : State) (i : Nat) : Prop :=
  ∃ d : Descriptor, s.store.chunks[i]? = some d ∧ d.status = .consumed

/-- The claims are where they should be, at any time. -/
structure Claims (p : Setup) (s : State) : Prop where
  /-- They stop for a failure only. -/
  stops : s.halted = true → s.HasFailed
  /-- A chunk is claimed once those were consumed that leave it a slot. -/
  behind : ∀ k j, k < s.next → j + p.allowed ≤ k → s.IsConsumed j

/-- All slots are taken, or there is nothing to take them for. -/
def Full (p : Setup) (s : State) : Prop :=
  s.halted = false → s.next = p.count ∨ s.held = p.allowed

theorem Claims.mono (h : Claims p s) (hnext : s'.next = s.next)
    (hfailed : s.HasFailed → s'.HasFailed) (hhalted : s'.halted = s.halted ∨ s'.HasFailed)
    (hconsumed : ∀ {j : Nat}, s.IsConsumed j → s'.IsConsumed j) : Claims p s' := by
  refine ⟨?_, ?_⟩
  · intro hh
    rcases hhalted with hsame | hnew
    · exact hfailed (h.stops (hsame.symm.trans hh))
    · exact hnew
  · intro k j hk hj
    rw [hnext] at hk
    exact hconsumed (h.behind k j hk hj)

theorem Claims.congr (h : Claims p s) (hstore : s'.store = s.store) (hnext : s'.next = s.next)
    (hhalted : s'.halted = s.halted) : Claims p s' := by
  refine h.mono hnext ?_ (Or.inl hhalted) ?_
  · rintro ⟨i, d, hd, hf⟩
    exact ⟨i, d, by rw [hstore]; exact hd, hf⟩
  · rintro j ⟨d, hd, hs⟩
    exact ⟨d, by rw [hstore]; exact hd, hs⟩

theorem Keeps.hasFailed (hk : Keeps s s') (h : s.HasFailed) : s'.HasFailed := by
  obtain ⟨i, d, hd, hf⟩ := h
  exact ⟨i, d, hk.settled hd (by rw [hf]; rfl), hf⟩

theorem Keeps.isConsumed (hk : Keeps s s') {j : Nat} (h : s.IsConsumed j) : s'.IsConsumed j := by
  obtain ⟨d, hd, hs⟩ := h
  exact ⟨d, hk.settled hd (by rw [hs]; rfl), hs⟩

/-- A consumption leaves consumed and failed chunks alone. -/
theorem Claims.consumes (h : Claims p s) (hc : s.Consumes s') : Claims p s' := by
  cases hc with
  | nothing _ => exact h
  | @one i d hi hd hs =>
      have hother : ∀ {j : Nat} {dj : Descriptor}, s.store.chunks[j]? = some dj →
          dj.status ≠ .downloaded → (s.consumed i d).store.chunks[j]? = some dj := by
        intro j dj hdj hne
        have hj : j ≠ i := by
          rintro rfl
          rw [hd] at hdj
          obtain rfl := Option.some.inj hdj
          exact hne hs
        exact (Store.chunk_set_ne _ hj).trans hdj
      refine h.mono rfl ?_ (Or.inl rfl) ?_
      · rintro ⟨j, dj, hdj, hf⟩
        exact ⟨j, dj, hother hdj (by rw [hf]; exact nofun), hf⟩
      · rintro j ⟨dj, hdj, hcon⟩
        exact ⟨dj, hother hdj (by rw [hcon]; exact nofun), hcon⟩

/-- **What is claimed is not too far ahead.** With the first `g` chunks consumed and no other, a
claim leaves at most `g` chunks and all slots behind it. -/
theorem Claims.fill {g : Nat} (h : Claims p s) (hsound : Consistent p s points broken payloads)
    (hg : ∀ {i : Nat} {d : Descriptor}, s.store.chunks[i]? = some d →
      (d.status = .consumed ↔ i < g)) : Claims p (s.fill p).state := by
  suffices hall : Consistent p (s.fill p).state points broken payloads
      ∧ (s.fill p).state.store = s.store ∧ Claims p (s.fill p).state from hall.2.2
  refine State.fill_keeps (P := fun t => Consistent p t points broken payloads
    ∧ t.store = s.store ∧ Claims p t) ?_ ⟨hsound, rfl, h⟩
  intro t hm ⟨ht, hstore, hclaims⟩
  refine ⟨ht.claim hm, hstore, hclaims.stops, ?_⟩
  intro k j hk hj
  have hlen : (t.claim p).state.next = t.next + 1 := List.length_append
  rw [hlen] at hk
  rcases Nat.lt_succ_iff_lt_or_eq.1 hk with hk | rfl
  · exact hclaims.behind k j hk hj
  · -- the claimed chunks after the first `g` take all slots that are taken, and one was free
    simp only [State.mayClaim, Bool.and_eq_true, Bool.not_eq_true', decide_eq_true_eq] at hm
    obtain ⟨⟨⟨-, hhalt⟩, hnext⟩, hroom⟩ := hm
    have hcount : t.next - g ≤ t.occupied := by
      refine sub_le_countP_take (by rw [ht.size]; exact ht.claimed) ?_
      intro i d hgi _ hd
      have hne : d.status ≠ .consumed := by
        intro hs
        rw [hstore] at hd
        have := (hg hd).1 hs
        omega
      have hnf : d.status ≠ .failed := by
        intro hf
        rw [ht.halts hd hf] at hhalt
        cases hhalt
      cases hs : d.status <;> first | rfl | exact absurd hs hne | exact absurd hs hnf
    have hheld := ht.held
    obtain ⟨d, hd⟩ := Store.exists_chunk (s := t.store) (i := j) (by rw [ht.size]; omega)
    refine ⟨d, hd, ?_⟩
    rw [hstore] at hd
    exact (hg hd).2 (by omega)

/-- A fill stops for want of chunks or of slots. -/
theorem full_fill (h : Consistent p s points broken payloads) (hc : s.closed = false) :
    Full p (s.fill p).state := by
  have hend : (s.fill p).state.mayClaim p = false := by
    fun_induction State.fill p s with
    | case1 s hm ih => exact ih (h.claim hm) hc
    | case2 s hm => exact eq_false_of_ne_true hm
  intro hhalt
  have hopen := State.fill_closed p s
  have hle := h.fill.claimed
  have hbound := h.fill.bound
  by_contra hne
  rw [not_or] at hne
  -- then a chunk and a slot are left, and one more claim is possible
  have hmay : (s.fill p).state.mayClaim p = true := by
    simp only [State.mayClaim, hopen, hc, hhalt, Bool.not_false, Bool.true_and, Bool.and_eq_true,
      decide_eq_true_eq]
    omega
  rw [hend] at hmay
  cases hmay

/-- At least one chunk may be held, if there is one. -/
theorem allowed_pos {m : Manifest} {config : FetchConfig} {method : Method} {opened : Move}
    (hcreate : create m config method = .ok (p, opened)) (h : 0 < p.count) : 0 < p.allowed := by
  have hmax : config.maxParallel ≠ 0 := by
    intro hzero
    rw [create, FetchConfig.validate, if_pos hzero] at hcreate
    cases hcreate
  obtain ⟨rfl, -⟩ := create_eq hcreate
  exact Nat.lt_min.2 ⟨Nat.pos_of_ne_zero hmax, h⟩

namespace World

variable {w w' : World} {m : Manifest} {config : FetchConfig} {method : Method} {opened : Move}

/-- No call of `advance` is between its first leg and its claims. -/
def Rests (w : World) : Prop := ∀ r n, w.readers r ≠ some (.fill n)

/-- A world with a reader that waits is at rest. -/
theorem Solo.rests (h : w.Solo) {r n : Nat} (hr : w.readers r = some (.look n)) : w.Rests := by
  intro k i hk
  obtain rfl := h r k (by rw [hr]; rfl) (by rw [hk]; rfl)
  rw [hr] at hk
  cases hk

/-- The claims are where they should be, and calls that rest have left no slot free. -/
structure Supplied (p : Setup) (w : World) : Prop where
  claims : Claims p w.state
  full : w.Rests → Full p w.state

/-- When all chunks were handed out, all were claimed. -/
theorem next_of_given (hsound : Consistent p w.state w.points w.broken w.payloads)
    (h : Reads p w) (hg : (handles w.log).length = p.count) : w.state.next = p.count := by
  have hle := hsound.claimed
  rcases Nat.eq_zero_or_pos p.count with h0 | h0
  · omega
  · obtain ⟨d, hd, hh⟩ := h.handed (i := p.count - 1) (List.getElem?_eq_getElem (by omega))
    have hlt := State.lt_next ((hsound.fits hd).ended (hh.status.imp id Or.inl)).1
    omega

theorem supplied_start (hcreate : create m config method = .ok (p, opened)) (now : Moment) :
    Supplied p (start now opened) := by
  obtain ⟨rfl, entry, rfl⟩ := create_eq hcreate
  have hsound := consistent_ofManifest m config method
  refine ⟨?_, fun _ => full_fill hsound rfl⟩
  -- nothing is claimed, nothing failed and nothing was consumed
  have hbefore : Claims (Setup.ofManifest m config method) (State.ofManifest m) :=
    ⟨nofun, nofun⟩
  refine hbefore.fill (g := 0) hsound ?_
  intro i d hd
  obtain ⟨c, -, rfl⟩ := List.mem_map.1 (List.mem_of_getElem? hd)
  exact ⟨nofun, nofun⟩

/-- A leg of a task that claims nothing and gives no slot back, unless its chunk fails. -/
theorem Supplied.task (h : Supplied p w) (hk : Keeps w.state w'.state)
    (hnext : w'.state.next = w.state.next) (hreaders : w'.readers = w.readers)
    (hslots : (w'.state.halted = w.state.halted ∧ w'.state.held = w.state.held)
      ∨ (w'.state.halted = true ∧ w'.state.HasFailed)) : Supplied p w' := by
  refine ⟨h.claims.mono hnext hk.hasFailed (hslots.imp (fun h => h.1) (fun h => h.2))
    hk.isConsumed, ?_⟩
  intro hrests hhalt
  rcases hslots with ⟨hsame, hheld⟩ | ⟨hhalted, -⟩
  · rw [hnext, hheld]
    exact h.full (by rw [Rests, ← hreaders]; exact hrests) (hsame.symm.trans hhalt)
  · rw [hhalted] at hhalt
    cases hhalt

/-- The last leg of a task gives a slot back only if its chunk fails. -/
theorem supplied_finish (h : Supplied p w)
    (hsound : Consistent p w.state w.points w.broken w.payloads) (hopen : w.state.closed = false)
    {i : Nat} {r : TaskResult} (hp : w.points i = some (.finish r)) (now : Moment)
    (addition : Duration) :
    Supplied p (w.runLeg now i (w.state.leg p now addition i (.finish r))) := by
  refine h.task (hsound.complete_keeps hopen hp now) (leg_next w.state now addition i _) rfl ?_
  obtain ⟨phase, ht, -⟩ := hsound.running hp
  obtain ⟨d, hd⟩ := hsound.chunk ht
  have hfit := hsound.fits hd
  rw [ht, hp] at hfit
  change ((w.state.complete now i r).state.halted = w.state.halted
      ∧ (w.state.complete now i r).state.held = w.state.held)
    ∨ (w.state.complete now i r).state.halted = true ∧ (w.state.complete now i r).state.HasFailed
  rcases complete_cases now hopen hd hfit with ⟨dl, -, -, heq⟩ | ⟨e, heq, -⟩
  · rw [heq]
    exact Or.inl ⟨rfl, rfl⟩
  · rw [heq]
    exact Or.inr ⟨rfl, i, _, Store.chunk_set_self hd _, rfl⟩

/-- A call that moves on leaves a free slot at most until its own claims. -/
theorem supplied_called (h : Supplied p w)
    (hsound : Consistent p w.state w.points w.broken w.payloads) (hreads : Reads p w)
    (hopen : w.state.closed = false) {k : Nat} (hk : w.readers k = none) (now : Moment) :
    Supplied p (w.runReader now k .fill (w.state.moveOn p)) := by
  have hmoves := State.moveOn_moves (p := p) hopen hsound.size
  generalize w.state.moveOn p = x at hmoves
  have hidle : Function.update w.readers k none = w.readers := by
    rw [← hk]
    exact Function.update_eq_self k w.readers
  cases hmoves with
  | again hs =>
      refine ⟨h.claims, fun hrests => h.full ?_⟩
      change ∀ r n, Function.update w.readers k none r ≠ some (.fill n) at hrests
      rw [hidle] at hrests
      exact hrests
  | @past s' effects hs hr hn =>
      refine ⟨(h.claims.consumes hr).congr rfl rfl rfl, fun _ _ => Or.inl ?_⟩
      -- the reader is past the last chunk, so that was claimed
      have hgiven : (handles w.log).length = p.count := by
        have hle := hreads.given_le hsound.size
        obtain ⟨rest, -, hstage⟩ := hreads.stage
        cases hstage with
        | reading _ hc => omega
        | atEnd _ _ hend _ => exact hend
        | failed hs' _ _ _ _ => rw [hs] at hs'; cases hs'
      have htasks : s'.tasks = w.state.tasks := by
        cases hr with
        | nothing _ => rfl
        | one _ _ _ => rfl
      exact (congrArg List.length htasks).trans (next_of_given hsound hreads hgiven)
  | ahead effects hs hr hn =>
      refine ⟨h.claims.consumes hr, fun hrests => absurd ?_ (hrests k (w.state.current + 1).toNat)⟩
      exact Function.update_self ..

/-- **Every action of an open provider with one reader leaves it supplied.** -/
theorem supplied_reachable (hcreate : create m config method = .ok (p, opened))
    (h : SoloReachable p opened w) : w.state.closed = false → Supplied p w := by
  refine h.keeps (P := fun w => w.state.closed = false → Supplied p w)
    (fun now _ => supplied_start hcreate now) ?_
  intro w w' hw ih ht _ hopen'
  have hopen := ht.open hopen'
  have hsound := sound_reachable hcreate hw.reachable hopen
  obtain ⟨-, hreads⟩ := reads_reachable hcreate hw
  have hreads := hreads hopen
  have h := ih hopen
  cases ht with
  | heard now hp hl =>
      have hq := State.hear_quiet hl
      exact h.task hq.keeps hq.next rfl (Or.inl ⟨hq.halted, hq.held⟩)
  | @ran i pt now addition hp =>
      by_cases hpt : ∃ r, pt = .finish r
      · obtain ⟨r, rfl⟩ := hpt
        exact supplied_finish h hsound hopen hp now addition
      · have hq := State.leg_quiet p w.state now addition i (not_exists.1 hpt)
        exact h.task hq.keeps hq.next rfl (Or.inl ⟨hq.halted, hq.held⟩)
  | called now hk => exact supplied_called h hsound hreads hopen hk now
  | filled now hk =>
      obtain ⟨-, -, -, -, hall⟩ := hreads.waits hk
      refine ⟨h.claims.fill hsound fun hd => ⟨hreads.consumed hd, fun hi => hall hi hd⟩, ?_⟩
      exact fun _ => full_fill hsound hopen
  | @looked k n now hk =>
      obtain ⟨current, surfaced, hframe⟩ := State.look_frame w.state now.elapsed n
      have hrests : (w.runReader now k .look (w.state.look now.elapsed n)).Rests → w.Rests := by
        intro hrests r i hr
        have hne : r ≠ k := by
          rintro rfl
          rw [hk] at hr
          cases hr
        refine hrests r i ?_
        generalize w.state.look now.elapsed n = x
        obtain ⟨s, effects, _ | _⟩ := x
        · exact (Function.update_of_ne hne ..).trans hr
        · exact (Function.update_of_ne hne ..).trans hr
      refine ⟨?_, fun hr => ?_⟩
      · rw [state_runReader, hframe]
        exact h.claims.congr rfl rfl rfl
      · rw [state_runReader, hframe]
        exact h.full (hrests hr)
  | @abandoned k n hk =>
      refine ⟨h.claims, fun hrests => h.full ?_⟩
      intro r i hr
      have hne : r ≠ k := by
        rintro rfl
        rw [hk] at hr
        cases hr
      exact hrests r i ((Function.update_of_ne hne ..).trans hr)
  | closed now => exact absurd hopen' (not_open_of_close w now)

/-- Chunks that were consumed take no slots. -/
theorem held_le (hsound : Consistent p w.state w.points w.broken w.payloads) {g : Nat}
    (hg : ∀ i, i < g → w.state.IsConsumed i) : w.state.held ≤ w.state.next - g := by
  rw [hsound.held]
  refine countP_take_le_sub ?_ _
  intro i d hi hd
  obtain ⟨d', hd', hs⟩ := hg i hi
  rw [hd] at hd'
  obtain rfl := Option.some.inj hd'
  rw [hs]
  rfl

/-- **A reader waits for a chunk that was claimed.** -/
theorem lt_next_of_waiting (hcreate : create m config method = .ok (p, opened))
    (hw : SoloReachable p opened w) (hopen : w.state.closed = false) {r n : Nat}
    (hr : w.readers r = some (.look n)) : n < w.state.next := by
  have hsound := sound_reachable hcreate hw.reachable hopen
  obtain ⟨hsolo, hreads⟩ := reads_reachable hcreate hw
  have hsupplied := supplied_reachable hcreate hw hopen
  obtain ⟨rfl, -⟩ := (hreads hopen).stage_of_looking hr
  obtain ⟨-, hlt, -, -, hall⟩ := (hreads hopen).waits hr
  have hconsumed : ∀ i, i < (handles w.log).length → w.state.IsConsumed i := by
    intro i hi
    obtain ⟨d, hd⟩ := Store.exists_chunk (s := w.state.store) (i := i) (by rw [hsound.size]; omega)
    exact ⟨d, hd, hall hi hd⟩
  by_contra hge
  -- no chunk after the consumed ones is claimed, so no slot is taken
  have hheld := held_le hsound hconsumed
  cases hhalt : w.state.halted with
  | true =>
      -- the chunk that failed was claimed, but all claimed chunks were consumed
      obtain ⟨i, d, hd, hf⟩ := hsupplied.claims.stops hhalt
      have hi := State.lt_next ((hsound.fits hd).ended (Or.inr (Or.inr hf))).1
      have hs := hall (by omega) hd
      rw [hf] at hs
      cases hs
  | false =>
      have hpos := allowed_pos hcreate (by omega)
      have hfull := hsupplied.full (hsolo.rests hr) hhalt
      omega

/-- **The chunk that a reader waits for is in flight or settled.** -/
theorem waiting_cases (hcreate : create m config method = .ok (p, opened))
    (hw : SoloReachable p opened w) (hopen : w.state.closed = false) {r n : Nat}
    (hr : w.readers r = some (.look n)) : n ∈ w.state.inFlight
      ∨ ∃ d, w.state.store.chunks[n]? = some d ∧ (d.status = .downloaded ∨ d.status = .failed) := by
  have hlt := lt_next_of_waiting hcreate hw hopen hr
  have hsound := sound_reachable hcreate hw.reachable hopen
  have hreads := (reads_reachable hcreate hw).2 hopen
  have ht : w.state.tasks[n]? = some w.state.tasks[n] := List.getElem?_eq_getElem hlt
  by_cases hended : w.state.tasks[n] = .ended
  · right
    obtain ⟨d, hd⟩ := hsound.chunk ht
    have hfit := hsound.fits hd
    rw [ht, hended] at hfit
    refine ⟨d, hd, ?_⟩
    rcases hfit.settled_of_ended with hs | hs | hs
    · exact Or.inl hs
    · -- a consumed chunk was handed out, and this one is still to come
      obtain ⟨rfl, -⟩ := hreads.stage_of_looking hr
      exact absurd (hreads.consumed hd hs) (Nat.lt_irrefl _)
    · exact Or.inr hs
  · exact Or.inl (hsound.flight.2 ⟨_, ht, hended⟩)

/-- While no chunk failed, a provider at rest is full. -/
theorem full_of_unfailed (hcreate : create m config method = .ok (p, opened))
    (hw : SoloReachable p opened w) (hopen : w.state.closed = false) (hrests : w.Rests)
    (hno : ¬ w.state.HasFailed) : w.state.next = p.count ∨ w.state.held = p.allowed := by
  have hsupplied := supplied_reachable hcreate hw hopen
  refine hsupplied.full hrests ?_
  cases hhalt : w.state.halted with
  | false => rfl
  | true => exact absurd (hsupplied.claims.stops hhalt) hno

/-- **A chunk is claimed as soon as there is a slot for it.** -/
theorem lt_next_of_consumed (hcreate : create m config method = .ok (p, opened))
    (hw : SoloReachable p opened w) (hopen : w.state.closed = false) (hrests : w.Rests)
    (hno : ¬ w.state.HasFailed) {k : Nat} (hk : k < p.count)
    (hg : ∀ j, j + p.allowed ≤ k → w.state.IsConsumed j) : k < w.state.next := by
  have hsound := sound_reachable hcreate hw.reachable hopen
  have hpos := allowed_pos hcreate (by omega)
  have hheld := held_le hsound (g := k + 1 - p.allowed) fun i hi => hg i (by omega)
  rcases full_of_unfailed hcreate hw hopen hrests hno with hall | hfull
  · omega
  · omega

end World

/-- **A reader never waits for a chunk that nobody works on, and no slot stays idle.** While a
provider is open and has a single reader:

* the chunk that a call of `advance` waits for is claimed, and it is in flight or settled;
* as long as no chunk failed, all chunks are claimed or all slots are taken, except between the two
  legs in which a call gives back a slot and claims what may be claimed;
* a chunk that was claimed had all chunks consumed before it that would have left it no slot, and as
  long as no chunk failed, it is claimed as soon as they are. -/
theorem claims_keep_up {m : Manifest} {config : FetchConfig} {method : Method} {p : Setup}
    {opened : Move} {w : World} (hcreate : create m config method = .ok (p, opened))
    (hw : World.SoloReachable p opened w) (hopen : w.state.closed = false) :
    (∀ r n, w.readers r = some (.look n) → w.Rests ∧ n < w.state.next
        ∧ (n ∈ w.state.inFlight ∨ ∃ d, w.state.store.chunks[n]? = some d
          ∧ (d.status = .downloaded ∨ d.status = .failed)))
      ∧ (w.Rests → ¬ w.state.HasFailed → w.state.next = m.count
          ∨ w.state.held = min config.maxParallel m.count)
      ∧ (∀ k j, k < w.state.next → j + min config.maxParallel m.count ≤ k → w.state.IsConsumed j)
      ∧ (w.Rests → ¬ w.state.HasFailed → ∀ k, k < m.count →
          (∀ j, j + min config.maxParallel m.count ≤ k → w.state.IsConsumed j) →
            k < w.state.next) := by
  obtain ⟨hcount, hallowed⟩ : p.count = m.count ∧ p.allowed = min config.maxParallel m.count := by
    obtain ⟨rfl, -⟩ := create_eq hcreate
    exact ⟨rfl, rfl⟩
  rw [← hallowed, ← hcount]
  refine ⟨?_, ?_, ?_, ?_⟩
  · intro r n hr
    exact ⟨(World.reads_reachable hcreate hw).1.rests hr,
      World.lt_next_of_waiting hcreate hw hopen hr, World.waiting_cases hcreate hw hopen hr⟩
  · exact World.full_of_unfailed hcreate hw hopen
  · exact (World.supplied_reachable hcreate hw hopen).claims.behind
  · intro hrests hno k hk hg
    exact World.lt_next_of_consumed hcreate hw hopen hrests hno hk hg

namespace Sample

/-- One chunk may be held at a time. -/
def narrow : FetchConfig := { maxParallel := 1 }

/-- The provider for the two chunks, with one slot. -/
def narrowed : Setup × Move := (create (manifest bothLinks) narrow .get).toOption.getD default

theorem create_narrowed :
    create (manifest bothLinks) narrow .get = .ok (narrowed.1, narrowed.2) :=
  create_of_validate (by decide +kernel)

/-- Chunk 0 is read, and the reader waits for chunk 1, which its second call has claimed. -/
def oneByOne : List Tick :=
  stretch 0 .start 3 ++ stretch 0 (.payload (.ok (payload 0))) 1 ++
  advancing dawn ++ advancing dawn

end Sample

/-- With one slot, chunk 1 was claimed after chunk 0 had been consumed. -/
theorem claims_keep_up_one_slot :
    ∃ w, World.SoloReachable Sample.narrowed.1 Sample.narrowed.2 w
      ∧ w.readers 0 = some (.look 1) ∧ 1 < w.state.next ∧ 1 ∈ w.state.inFlight
      ∧ w.state.IsConsumed 0 := by
  have hrun : ∃ w, World.SoloReachable Sample.narrowed.1 Sample.narrowed.2 w
      ∧ w.state.closed = false ∧ w.readers 0 = some (.look 1)
      ∧ w.state.store.chunks.map (·.status) = [.consumed, .pending] :=
    World.exists_soloReachable Sample.dawn Sample.oneByOne (by decide) (by decide +kernel)
  obtain ⟨w, hw, hopen, hreader, hstatuses⟩ := hrun
  obtain ⟨hwaits, -, hbehind, -⟩ :=
    claims_keep_up Sample.create_narrowed hw hopen
  obtain ⟨-, hclaimed, hworked⟩ := hwaits 0 1 hreader
  refine ⟨w, hw, hreader, hclaimed, ?_, hbehind 1 0 hclaimed (by decide)⟩
  rcases hworked with hflight | ⟨d, hd, hs⟩
  · exact hflight
  · -- the task of chunk 1 has not started, so the chunk is not settled
    have hsecond := congrArg (fun l : List ChunkStatus => l[1]?) hstatuses
    simp only [List.getElem?_map, hd, Option.map_some] at hsecond
    have hpending : d.status = .pending := Option.some.inj hsecond
    rw [hpending] at hs
    rcases hs with h | h <;> cases h

end ResultChunks.Provider
