import ResultChunks.Proofs.Provider.Kept

/-!
# Where the links of an answer go

An answer names chunks by its links, and the last link that names a chunk counts. While the provider
is open, a chunk changes its link only when a leg stores an answer that names it; every other leg, of
tasks and of readers, leaves the links alone. A leg that stores an answer stores the one that its task
heard last, and a task goes back to downloading only after it stored the answer to its refresh. So
what it downloads then is what this answer has for the chunk, unless another task stored a link for
the chunk in between.
-/

namespace ResultChunks

/-- The link that an answer has for a chunk. Of several that name the chunk the last counts. -/
def LinkTable.naming (t : LinkTable) (index : Int) : Option Link :=
  ((t.map Prod.snd).filter fun l => l.chunkIndex = index).getLast?

namespace Provider

variable {p : Setup} {s s' : State} {now : Moment} {addition : Duration} {i : Nat}
  {d d' : Descriptor}

/-! ## Storing an answer -/

theorem State.applyLink_chunk {store : Store} (hd : store.chunks[i]? = some d)
    (hw : d.status.wantsLink = true) (l : Link) : (applyLink store l).1.chunks[i]? =
      some { d with link := if l.chunkIndex = i then some l else d.link } := by
  by_cases hi : l.chunkIndex = i
  · have hset : store.setLink l = .ok (true, store.put l.chunkIndex { d with link := some l }) := by
      rw [Store.setLink, hi, Store.get_eq_ok hd]
      show (if d.status.wantsLink then _ else _) = _
      rw [if_pos hw]
    rw [applyLink, hset, if_pos hi]
    show (store.chunks.set l.chunkIndex.toNat _)[i]? = _
    rw [hi, Int.toNat_natCast]
    exact Store.chunk_set_self hd _
  · rw [if_neg hi]
    obtain ⟨o, ho, hsame | ⟨-, l', hl', -, hname⟩⟩ := (applyLink_relinked store l).chunk hd
    · rw [ho, hsame]
    · rw [List.mem_singleton.1 hl'] at hname
      exact absurd hname hi

theorem State.applyAll_chunk {store : Store} (hd : store.chunks[i]? = some d)
    (hw : d.status.wantsLink = true) (links : List Link) : (applyAll store links).1.chunks[i]? =
      some { d with link := ((links.filter fun l => l.chunkIndex = (i : Int)).getLast?).or d.link } := by
  -- each link is stored in turn, so what an earlier one left is the link that a later one replaces
  induction links generalizing store d with
  | nil => exact hd
  | cons l links ih =>
    show (applyAll (applyLink store l).1 links).1.chunks[i]? = _
    rw [ih (applyLink_chunk hd hw l) hw]
    by_cases hi : l.chunkIndex = i
    · rw [List.filter_cons_of_pos (by simp [hi]), List.getLast?_cons, if_pos hi]
      cases (links.filter fun l => l.chunkIndex = (i : Int)).getLast? <;> rfl
    · rw [List.filter_cons_of_neg (by simp [hi]), if_neg hi]

/-- **An open provider stores what an answer has for a chunk that wants a link**, and then the chunk
must have one. -/
theorem State.applyLinks_naming (links : LinkTable) (hc : s.closed = false)
    (hd : s.store.chunks[i]? = some d) (hw : d.status.wantsLink = true) :
    ∃ store entries, s.applyLinks i links = ({ s with store }, notes entries,
        if ((links.naming i).or d.link).isSome then .ok ()
        else .error (.invalidManifest (.noLinkResolved i)))
      ∧ store.chunks[i]? = some { d with link := (links.naming i).or d.link } := by
  have hchunk := applyAll_chunk hd hw (links.map Prod.snd)
  refine ⟨_, (applyAll s.store (links.map Prod.snd)).2, ?_, hchunk⟩
  rw [applyLinks, if_neg (by simp [hc])]
  dsimp only
  rw [Store.get_eq_ok hchunk]
  rfl

/-! ## Which legs change links -/

/-- The answer that a leg stores. -/
def Point.answer : Point → Option LinkTable
  | .apply links _ | .applyRefreshed links _ => some links
  | _ => none

/-- Each chunk has the link it had, or the one that an answer has for it. -/
structure Renewed (answer : Option LinkTable) (s s' : State) : Prop where
  chunk : ∀ {j : Nat} {d' : Descriptor}, s'.store.chunks[j]? = some d' →
    ∃ d, s.store.chunks[j]? = some d ∧ (d'.link = d.link
      ∨ ∃ links l, answer = some links ∧ links.naming j = some l ∧ d'.link = some l)

namespace Renewed

variable {answer : Option LinkTable}

theorem same (h : s'.store = s.store) : Renewed answer s s' := by
  constructor
  intro j d' hd'
  rw [h] at hd'
  exact ⟨d', hd', Or.inl rfl⟩

/-- One descriptor was replaced by one with the same link. -/
theorem set (hd : s.store.chunks[i]? = some d) (h : s'.store = ⟨s.store.chunks.set i d'⟩)
    (hlink : d'.link = d.link) : Renewed answer s s' := by
  constructor
  intro j dj hdj
  rw [h] at hdj
  rcases Store.chunk_of_set hdj with ⟨rfl, rfl⟩ | ⟨-, hold⟩
  · exact ⟨d, hd, Or.inl hlink⟩
  · exact ⟨dj, hold, Or.inl rfl⟩

theorem trans {s'' : State} (h : Renewed answer s s') (h' : Renewed answer s' s'') :
    Renewed answer s s'' := by
  constructor
  intro j d'' hd''
  obtain ⟨d', hd', hlink | hnew⟩ := h'.chunk hd''
  · obtain ⟨d, hd, hold⟩ := h.chunk hd'
    rw [← hlink] at hold
    exact ⟨d, hd, hold⟩
  · obtain ⟨d, hd, -⟩ := h.chunk hd'
    exact ⟨d, hd, Or.inr hnew⟩

theorem move {store : Store} {next : ChunkStatus} (h : s.store.move i next = .ok store) :
    Renewed answer s { s with store } := by
  cases hg : s.store.get i with
  | error e => simp [Store.move, Store.moveWith, hg, bind, Except.bind] at h
  | ok d =>
    obtain ⟨-, hd⟩ := Store.of_get_eq_ok hg
    rw [Int.toNat_natCast] at hd
    rw [Store.move, Store.moveWith_eq hd] at h
    split at h
    · obtain rfl := Except.ok.inj h
      exact .set hd rfl rfl
    · cases h

theorem applyLinks {links : LinkTable} {effects : List Effect} {checked : Except FetchError Unit}
    (h : s.applyLinks i links = (s', effects, checked)) : Renewed (some links) s s' := by
  unfold State.applyLinks at h
  split at h
  · obtain ⟨rfl, -⟩ := Prod.mk.inj h
    exact .same rfl
  · obtain ⟨rfl, -⟩ := Prod.mk.inj h
    constructor
    intro j d' hd'
    have hrelinked := State.applyAll_relinked s.store (links.map Prod.snd)
    have hlt := Store.lt_of_chunk hd'
    obtain ⟨d, hd⟩ := Store.exists_chunk (s := s.store) (i := j) (by rw [← hrelinked.size]; exact hlt)
    refine ⟨d, hd, ?_⟩
    -- a chunk that wants no link any more keeps the one it has
    cases hw : d.status.wantsLink with
    | false =>
      obtain ⟨o, ho, hsame | ⟨hwants, -⟩⟩ := hrelinked.chunk hd
      · obtain rfl := Option.some.inj (hd'.symm.trans ho)
        exact Or.inl hsame
      · rw [hw] at hwants
        cases hwants
    | true =>
      obtain rfl := Option.some.inj (hd'.symm.trans (State.applyAll_chunk hd hw _))
      cases hn : links.naming j with
      | none =>
        rw [LinkTable.naming] at hn
        exact Or.inl (by show Option.or _ _ = _; rw [hn]; rfl)
      | some l =>
        refine Or.inr ⟨links, l, rfl, hn, ?_⟩
        rw [LinkTable.naming] at hn
        show Option.or _ _ = _
        rw [hn]
        rfl

end Renewed

theorem State.settleLinks_store (p : Setup) (s : State) (addition : Duration) (i : Nat)
    (a : Retry.Account) (result : Except FetchError LinkTable) :
    (s.settleLinks p addition i a result).state.store = s.store := by
  cases result with
  | ok links => rfl
  | error e =>
    obtain ⟨effects, e', n, h⟩ | ⟨effects, phase, h, -⟩ := settleLinks_error p s addition i a e
    · rw [h]
    · rw [h]
      rfl

/-- Hearing an answer changes no chunk. -/
theorem State.hear_store {signal : Signal} {l : Leg} (h : s.hear p addition i signal = some l) :
    l.state.store = s.store := by
  have hattempt : ∀ a result, (s.settleAttempt p addition i a result).state.store = s.store := by
    intro a result
    cases result with
    | ok dl => rfl
    | error e => exact settleAttempt_store p s addition i a e
  cases hear_hears h with
  | start | refreshed | asksAgain | asksNothing | triesAgain => rfl
  | resolved => exact settleLinks_store ..
  | unrefreshed | payload => exact hattempt _ _

/-- **A leg changes the links of chunks only by the answer that it stores.** -/
theorem State.leg_renewed (p : Setup) (s : State) (now : Moment) (addition : Duration) (i : Nat)
    {pt : Point} (hpt : ∀ r, pt ≠ .finish r) :
    Renewed pt.answer s (s.leg p now addition i pt).state := by
  have hruns := leg_runs p s now addition i pt
  generalize s.leg p now addition i pt = l at hruns
  cases hruns with
  | givesUp | overruns | unlinked | asks | downloads | expired => exact .same rfl
  | fails _ a e _ => exact .same (settleAttempt_store p s addition i a e)
  | linked _ _ _ hm | marked hm | begins _ hm => exact .move hm
  | refreshes _ hm | resumes hm => exact (Renewed.move hm).trans (.same rfl)
  | loses hm => exact (Renewed.move hm).trans (.same (settleAttempt_store ..))
  -- the two legs that store an answer
  | applied ha | unapplied ha | renews ha => exact .applyLinks ha
  | unrenewed ha => exact (Renewed.applyLinks ha).trans (.same (settleAttempt_store ..))
  | finishes r => exact absurd rfl (hpt r)

/-- The last leg of a task changes no link. -/
theorem Consistent.complete_renewed {points : Nat → Option Point} {broken : Nat → Bool}
    {payloads : Nat → List Download} (h : Consistent p s points broken payloads)
    (hc : s.closed = false) {r : TaskResult} (hp : points i = some (.finish r)) (now : Moment) :
    Renewed none s (s.complete now i r).state := by
  obtain ⟨phase, ht, -⟩ := h.running hp
  obtain ⟨d, hd⟩ := h.chunk ht
  have hfit := h.fits hd
  rw [ht, hp] at hfit
  rcases complete_cases now hc hd hfit with ⟨dl, -, -, hstate⟩ | ⟨e, hstate, -⟩
  · rw [hstate]
    exact .set hd rfl rfl
  · rw [hstate]
    exact .set hd rfl rfl

theorem State.Consumes.renewed (h : s.Consumes s') : Renewed none s s' := by
  cases h with
  | nothing _ => exact .same rfl
  | one _ hd _ => exact .set hd rfl rfl

theorem State.Moves.renewed {r : State × List Effect × Progress} (h : s.Moves p r) :
    Renewed none s r.1 := by
  cases h with
  | again _ => exact .same rfl
  | past effects _ hr _ => exact hr.renewed.trans (.same rfl)
  | ahead effects _ hr _ => exact hr.renewed

/-! ## What a stretch leads to -/

theorem State.settleAttempt_next {a : Retry.Account} {result : Except FetchError Download} {q : Point}
    (h : (s.settleAttempt p addition i a result).next = some q) : ∃ r, q = .finish r := by
  have hrank := settleAttempt_rank h
  cases q with
  | finish r => exact ⟨r, rfl⟩
  | _ => cases hrank

/-- A task that heard an answer stores this one, and does not go back to downloading before. -/
theorem State.hear_next {signal : Signal} {l : Leg} {q : Point}
    (h : s.hear p addition i signal = some l) (hn : l.next = some q) :
    (∀ links, q.answer = some links → signal = .links (.ok links)) ∧ ∀ a, q ≠ .resume a := by
  have hattempt : ∀ {a : Retry.Account} {result : Except FetchError Download},
      (s.settleAttempt p addition i a result).next = some q →
      (∀ links, q.answer = some links → signal = .links (.ok links)) ∧ ∀ a, q ≠ .resume a := by
    intro a result hn
    obtain ⟨r, rfl⟩ := settleAttempt_next hn
    exact ⟨by simp [Point.answer], by simp⟩
  cases hear_hears h with
  | start | asksAgain | asksNothing | triesAgain =>
    obtain rfl := Option.some.inj hn
    exact ⟨by simp [Point.answer], by simp⟩
  | refreshed ht links =>
    obtain rfl := Option.some.inj hn
    exact ⟨by simp [Point.answer], by simp⟩
  | @resolved a ht result =>
    cases result with
    | ok links =>
      rw [settleLinks_ok] at hn
      obtain rfl := Option.some.inj hn
      exact ⟨by simp [Point.answer], by simp⟩
    | error e =>
      obtain ⟨effects, e', n, heq⟩ | ⟨effects, phase, heq, -⟩ := settleLinks_error p s addition i a e
      · rw [heq] at hn
        obtain rfl := Option.some.inj hn
        exact ⟨by simp [Point.answer], by simp⟩
      · rw [heq] at hn
        cases hn
  | unrefreshed | payload => exact hattempt hn

/-- No leg but the first brings an answer, and a task goes back to downloading only after it stored
one. -/
theorem State.leg_next_answer {pt q : Point} (h : (s.leg p now addition i pt).next = some q) :
    q.answer = none ∧ ∀ a, q = .resume a → ∃ links, pt = .applyRefreshed links a := by
  have hattempt : ∀ {t : State} {a : Retry.Account} {e : FetchError},
      (t.settleAttempt p addition i a (.error e)).next = some q →
      q.answer = none ∧ ∀ a, q = .resume a → ∃ links, pt = .applyRefreshed links a := by
    intro t a e hn
    obtain ⟨r, rfl⟩ := settleAttempt_next hn
    exact ⟨rfl, by simp⟩
  have hruns := leg_runs p s now addition i pt
  generalize s.leg p now addition i pt = l at h hruns
  cases hruns with
  | givesUp | linked | unlinked | applied | unapplied | marked | begins | expired =>
    obtain rfl := Option.some.inj h
    exact ⟨rfl, by simp⟩
  | fails | unrenewed | loses => exact hattempt h
  | @renews s' links effects a ha =>
    obtain rfl := Option.some.inj h
    refine ⟨rfl, fun a' ha' => ?_⟩
    obtain rfl := Point.resume.inj ha'
    exact ⟨links, rfl⟩
  | overruns | asks | downloads | refreshes | resumes | finishes => cases h

end Provider

end ResultChunks
