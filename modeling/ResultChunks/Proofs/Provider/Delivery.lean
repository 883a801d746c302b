import ResultChunks.Proofs.Provider.Origin
import ResultChunks.Proofs.Provider.Run

/-!
# What one reader gets

While at most one call of `advance` is under way, the chunks that were handed out are those at the
front of the result, in order. `Reading` says where the reader stands: all chunks handed out before
the last one are consumed, a call that is under way looks for the next one, and what the calls
returned is the chunks in order and then the same end or the same failure again and again.

The steps of tasks do not touch this. They never change a chunk that is settled (`Keeps`), and only
the reader consumes chunks.
-/

namespace ResultChunks.Provider

/-! ## What the steps of tasks leave alone -/

/-- Settled chunks stay as they are, and none is consumed. -/
structure Keeps (s s' : State) : Prop where
  current : s'.current = s.current
  surfaced : s'.surfaced = s.surfaced
  settled : ∀ {j : Nat} {d : Descriptor}, s.store.chunks[j]? = some d →
    d.status.wantsLink = false → s'.store.chunks[j]? = some d
  consumed : ∀ {j : Nat} {d' : Descriptor}, s'.store.chunks[j]? = some d' →
    d'.status = .consumed → s.store.chunks[j]? = some d'

section

variable {p : Setup} {s s' : State} {i : Nat}

theorem LinkFor.of_settled {j : Nat} {d : Descriptor} {o : Option Link} (h : LinkFor j d o)
    (hw : d.status.wantsLink = false) : o = d.link := by
  rcases h with h | ⟨hno, -⟩
  · exact h
  · rw [hw] at hno
    exact nomatch hno

theorem Quiet.settled (h : Quiet i s s') {j : Nat} {d : Descriptor}
    (hd : s.store.chunks[j]? = some d) (hw : d.status.wantsLink = false) :
    s'.store.chunks[j]? = some d := by
  by_cases hj : j = i
  · subst hj
    obtain ⟨o, st, ho, hfor, hst⟩ := h.own hd
    obtain rfl := hfor.of_settled hw
    rcases hst with rfl | ⟨hno, -⟩
    · exact ho
    · rw [hw] at hno
      exact nomatch hno
  · obtain ⟨o, ho, hfor⟩ := h.others hj hd
    obtain rfl := hfor.of_settled hw
    exact ho

theorem Quiet.keeps (h : Quiet i s s') : Keeps s s' where
  current := h.current
  surfaced := h.surfaced
  settled := h.settled
  consumed := by
    intro j d' hd' hs
    have hlt := Store.lt_of_chunk hd'
    rw [h.size] at hlt
    obtain ⟨d, hd⟩ := Store.exists_chunk hlt
    have hsame : d.status = .consumed := by
      by_cases hj : j = i
      · subst hj
        obtain ⟨o, st, ho, -, hst⟩ := h.own hd
        rw [ho] at hd'
        obtain rfl := Option.some.inj hd'
        obtain rfl : st = .consumed := hs
        rcases hst with hst | ⟨-, hno⟩
        · exact hst.symm
        · exact nomatch hno
      · obtain ⟨o, ho, -⟩ := h.others hj hd
        rw [ho] at hd'
        obtain rfl := Option.some.inj hd'
        exact hs
    have hkept := h.settled hd (by rw [hsame]; rfl)
    rw [hkept] at hd'
    rw [← hd']
    exact hd

/-- A consumed chunk stays consumed. -/
theorem Keeps.still_consumed (h : Keeps s s')
    (hsize : s'.store.chunks.length = s.store.chunks.length) {j : Nat} {d : Descriptor}
    (hd : s'.store.chunks[j]? = some d)
    (hold : ∀ {d₀ : Descriptor}, s.store.chunks[j]? = some d₀ → d₀.status = .consumed) :
    d.status = .consumed := by
  have hlt := Store.lt_of_chunk hd
  rw [hsize] at hlt
  obtain ⟨d₀, hd₀⟩ := Store.exists_chunk hlt
  have hs := hold hd₀
  rw [h.settled hd₀ (by rw [hs]; rfl)] at hd
  rw [← Option.some.inj hd]
  exact hs

theorem Consistent.complete_keeps {points : Nat → Option Point} {broken : Nat → Bool}
    {payloads : Nat → List Download} (h : Consistent p s points broken payloads)
    (hc : s.closed = false) {r : TaskResult} (hp : points i = some (.finish r)) (now : Moment) :
    Keeps s (s.complete now i r).state := by
  obtain ⟨phase, ht, -⟩ := h.running hp
  obtain ⟨d, hd⟩ := h.chunk ht
  have hfit := h.fits hd
  rw [ht, hp] at hfit
  have hw := hfit.wantsLink_of_finish
  have key : ∀ {t : State} {d₁ : Descriptor}, t.store = ⟨s.store.chunks.set i d₁⟩ →
      d₁.status ≠ .consumed → t.current = s.current → t.surfaced = s.surfaced → Keeps s t := by
    intro t d₁ hstore hne hcurrent hsurfaced
    refine ⟨hcurrent, hsurfaced, ?_, ?_⟩
    · intro j dj hdj hsettled
      have hj : j ≠ i := by
        rintro rfl
        rw [hd] at hdj
        obtain rfl := Option.some.inj hdj
        rw [hw] at hsettled
        exact nomatch hsettled
      rw [hstore]
      exact (Store.chunk_set_ne d₁ hj).trans hdj
    · intro j d' hd' hs
      rw [hstore] at hd'
      rcases Store.chunk_of_set hd' with ⟨-, rfl⟩ | ⟨-, hold⟩
      · exact absurd hs hne
      · exact hold
  rcases complete_cases now hc hd hfit with ⟨dl, -, -, heq⟩ | ⟨e, heq, -⟩
  · rw [heq]
    exact key rfl nofun rfl rfl
  · rw [heq]
    exact key rfl nofun rfl rfl

end

/-! ## Where the reader stands -/

/-- How far the reader has come with `n` chunks handed out, and what its calls returned after them. -/
inductive Stage (p : Setup) (s : State) (n : Nat) : List Answer → Prop where
  /-- It reads on. -/
  | reading (hs : s.surfaced = none) (hc : s.current + 1 = n) : Stage p s n []
  /-- It has seen the end. -/
  | atEnd {r : Nat} (hs : s.surfaced = none) (hc : s.current = p.count) (hn : n = p.count)
      (hall : ∀ {i : Nat} {d : Descriptor}, s.store.chunks[i]? = some d → d.status = .consumed) :
      Stage p s n (List.replicate (r + 1) (.ok none))
  /-- It has seen the failure of the next chunk. -/
  | failed {r : Nat} {e : FetchError} {d : Descriptor} (hs : s.surfaced = some e)
      (hc : s.current + 1 = n) (hd : s.store.chunks[n]? = some d) (hf : d.status = .failed)
      (he : d.error = some e) : Stage p s n (List.replicate (r + 1) (.error e))

/-- A chunk was handed out: it is downloaded or consumed, and the handle has its extent and the
batches of its payload. -/
structure Handed (payloads : Nat → List Download) (i : Nat) (h : Handle) (d : Descriptor) :
    Prop where
  status : d.status = .downloaded ∨ d.status = .consumed
  index : h.index = i
  offset : h.rowOffset = d.rowOffset
  count : h.rowCount = d.rowCount
  batches : ∃ dl, payloads i = [dl] ∧ h.batches = dl.batches

/-- **Where a single reader stands.** The handles are those of the chunks at the front, and the calls
returned them in order. -/
structure Reading (p : Setup) (s : State) (readers : Nat → Option Reader)
    (payloads : Nat → List Download) (given : List Handle) (returned : List Answer) : Prop where
  handed : ∀ {i : Nat} {h : Handle}, given[i]? = some h →
    ∃ d, s.store.chunks[i]? = some d ∧ Handed payloads i h d
  /-- Only chunks that were handed out are consumed. -/
  consumed : ∀ {i : Nat} {d : Descriptor}, s.store.chunks[i]? = some d → d.status = .consumed →
    i < given.length
  /-- All of them are, but the one handed out last. -/
  older : ∀ {i : Nat} {d : Descriptor}, i + 1 < given.length → s.store.chunks[i]? = some d →
    d.status = .consumed
  /-- A call that is under way looks for the next chunk, and that one is consumed as well. -/
  waits : ∀ {k : Nat} {r : Reader}, readers k = some r →
    (r = .fill given.length ∨ r = .look given.length) ∧ given.length < p.count
      ∧ s.surfaced = none ∧ s.current + 1 = given.length
      ∧ ∀ {i : Nat} {d : Descriptor}, i < given.length → s.store.chunks[i]? = some d →
        d.status = .consumed
  stage : ∃ rest, returned = given.map (fun h => .ok (some h)) ++ rest
    ∧ Stage p s given.length rest

/-- Handles that have their own places as indices are those of the chunks at the front. -/
theorem indices_eq_range {given : List Handle}
    (h : ∀ {i : Nat} {g : Handle}, given[i]? = some g → g.index = i) :
    given.map Handle.index = List.range given.length := by
  apply List.ext_getElem?
  intro i
  rw [List.getElem?_map]
  rcases Nat.lt_or_ge i given.length with hlt | hge
  · have hi : given[i]? = some given[i] := List.getElem?_eq_getElem hlt
    rw [hi, List.getElem?_range hlt]
    exact congrArg some (h hi)
  · rw [List.getElem?_eq_none hge, List.getElem?_eq_none (by rw [List.length_range]; exact hge)]
    rfl

namespace Reading

variable {p : Setup} {s s' : State} {readers readers' : Nat → Option Reader}
  {payloads payloads' : Nat → List Download} {given : List Handle} {returned : List Answer}

theorem Handed.settled {i : Nat} {h : Handle} {d : Descriptor} (hh : Handed payloads i h d) :
    d.status.wantsLink = false := by
  rcases hh.status with hs | hs <;> rw [hs] <;> rfl

/-- There are no more handles than chunks. -/
theorem given_le (h : Reading p s readers payloads given returned)
    (hsize : s.store.chunks.length = p.count) : given.length ≤ p.count := by
  rcases Nat.eq_zero_or_pos given.length with h0 | h0
  · omega
  · have hlast : given.length - 1 < given.length := by omega
    obtain ⟨d, hd, -⟩ := h.handed (List.getElem?_eq_getElem hlast)
    have := Store.lt_of_chunk hd
    omega

/-- The first chunk that failed was not handed out, nor was any after it. -/
theorem given_le_of_failed (h : Reading p s readers payloads given returned) {k : Nat}
    {d : Descriptor} (hd : s.store.chunks[k]? = some d) (hf : d.status = .failed) :
    given.length ≤ k := by
  by_contra hlt
  obtain ⟨d', hd', hh⟩ := h.handed (List.getElem?_eq_getElem (Nat.lt_of_not_le hlt))
  rw [hd] at hd'
  obtain rfl := Option.some.inj hd'
  rcases hh.status with hs' | hs' <;> (rw [hf] at hs'; exact nomatch hs')

/-- **The steps of tasks leave the reader where it is.** -/
theorem keeps (h : Reading p s readers payloads given returned) (hk : Keeps s s')
    (hsize : s'.store.chunks.length = s.store.chunks.length)
    (hpay : ∀ {i : Nat} {d : Descriptor}, s.store.chunks[i]? = some d →
      d.status = .downloaded ∨ d.status = .consumed → payloads' i = payloads i) :
    Reading p s' readers payloads' given returned where
  handed := by
    intro i g hg
    obtain ⟨d, hd, hh⟩ := h.handed hg
    refine ⟨d, hk.settled hd (Handed.settled hh), hh.status, hh.index, hh.offset, hh.count, ?_⟩
    rw [hpay hd hh.status]
    exact hh.batches
  consumed := fun hd hs => h.consumed (hk.consumed hd hs) hs
  older := by
    intro i d hi hd
    exact hk.still_consumed hsize hd fun hd₀ => h.older hi hd₀
  waits := by
    intro k r hr
    obtain ⟨hlook, hlt, hs, hc, hall⟩ := h.waits hr
    refine ⟨hlook, hlt, hk.surfaced.trans hs, by rw [hk.current]; exact hc, ?_⟩
    intro i d hi hd
    exact hk.still_consumed hsize hd fun hd₀ => hall hi hd₀
  stage := by
    obtain ⟨rest, hrest, hstage⟩ := h.stage
    refine ⟨rest, hrest, ?_⟩
    cases hstage with
    | reading hs hc => exact .reading (hk.surfaced.trans hs) (by rw [hk.current]; exact hc)
    | atEnd hs hc hn hall =>
        refine .atEnd (hk.surfaced.trans hs) (hk.current.trans hc) hn ?_
        intro i d hd
        exact hk.still_consumed hsize hd fun hd₀ => hall hd₀
    | failed hs hc hd hf he =>
        exact .failed (hk.surfaced.trans hs) (by rw [hk.current]; exact hc)
          (hk.settled hd (by rw [hf]; rfl)) hf he

/-! ### The steps of the reader -/

/-- What a consumption keeps of the handles, and that it consumes the chunk handed out last. -/
theorem consumes (h : Reading p s readers payloads given returned) {s' : State}
    (hr : s.Consumes s') (hc : s.current + 1 = given.length) :
    (∀ {i : Nat} {g : Handle}, given[i]? = some g →
      ∃ d, s'.store.chunks[i]? = some d ∧ Handed payloads i g d)
    ∧ (∀ {i : Nat} {d : Descriptor}, s'.store.chunks[i]? = some d → d.status = .consumed →
      i < given.length)
    ∧ ∀ {i : Nat} {d : Descriptor}, i < given.length → s'.store.chunks[i]? = some d →
      d.status = .consumed := by
  refine ⟨?_, ?_, ?_⟩
  · intro i g hg
    obtain ⟨d₀, hd₀, hh⟩ := h.handed hg
    obtain ⟨d', hd'⟩ := Store.exists_chunk (s := s'.store) (i := i)
      (by rw [hr.size]; exact Store.lt_of_chunk hd₀)
    obtain ⟨d, hd, hcases⟩ := hr.chunk hd'
    rw [hd₀] at hd
    obtain rfl := Option.some.inj hd
    refine ⟨d', hd', ?_⟩
    rcases hcases with rfl | ⟨-, -, hs, hoffset, hcount⟩
    · exact hh
    · exact ⟨Or.inr hs, hh.index, hh.offset.trans hoffset.symm, hh.count.trans hcount.symm,
        hh.batches⟩
  · intro i d' hd' hs'
    obtain ⟨d, hd, rfl | ⟨hi, -⟩⟩ := hr.chunk hd'
    · exact h.consumed hd hs'
    · omega
  · intro i d' hi hd'
    obtain ⟨d, hd, rfl | ⟨-, -, hs, -⟩⟩ := hr.chunk hd'
    · rcases Nat.lt_or_ge (i + 1) given.length with hlt | hge
      · exact h.older hlt hd
      · -- the chunk handed out last is consumed here, unless it was before
        have hcur : s.current = i := by omega
        obtain ⟨d₀, hd₀, hh⟩ := h.handed (List.getElem?_eq_getElem hi)
        cases hr with
        | nothing hno =>
            rw [hd] at hd₀
            obtain rfl := Option.some.inj hd₀
            exact hh.status.resolve_left (hno hcur hd)
        | @one j dj hj hdj hs =>
            rcases Store.chunk_of_set hd' with ⟨-, rfl⟩ | ⟨hne, -⟩
            · rfl
            · omega
    · exact hs

/-- The failure is returned again. -/
theorem again (h : Reading p s readers payloads given returned) {e : FetchError}
    (hs : s.surfaced = some e) :
    Reading p s readers payloads given (returned ++ [.error e]) := by
  refine ⟨h.handed, h.consumed, h.older, h.waits, ?_⟩
  obtain ⟨rest, hrest, hstage⟩ := h.stage
  cases hstage with
  | reading hno hc => rw [hs] at hno; exact nomatch hno
  | atEnd hno hc hn hall => rw [hs] at hno; exact nomatch hno
  | @failed r e' d hs' hc hd hf he =>
      rw [hs] at hs'
      obtain rfl := Option.some.inj hs'
      refine ⟨List.replicate (r + 1 + 1) (.error e), ?_, .failed hs hc hd hf he⟩
      rw [hrest, List.append_assoc, ← List.replicate_succ']

/-- The end is returned. -/
theorem past (h : Reading p s readers payloads given returned) {s' : State}
    (hsize : s.store.chunks.length = p.count) (hs : s.surfaced = none) (hr : s.Consumes s')
    (hn : p.count ≤ (s.current + 1).toNat) :
    Reading p { s' with current := p.count } readers payloads given (returned ++ [.ok none]) := by
  have hle := h.given_le hsize
  have hidle : ∀ {k : Nat} {r : Reader}, readers k ≠ some r := by
    intro k r hk
    obtain ⟨-, hlt, -, hc, -⟩ := h.waits hk
    omega
  obtain ⟨rest, hrest, hstage⟩ := h.stage
  cases hstage with
  | reading _ hc =>
      obtain ⟨hhanded, hconsumed, hall⟩ := h.consumes hr hc
      have hend : given.length = p.count := by omega
      refine ⟨hhanded, hconsumed, fun hi hd => hall (by omega) hd,
        fun hk => absurd hk hidle, [.ok none], ?_, ?_⟩
      · rw [hrest, List.append_nil]
      · refine Stage.atEnd (r := 0) (hr.surfaced.trans hs) rfl hend ?_
        intro i d hd
        have hlt := Store.lt_of_chunk hd
        have hsame := hr.size
        exact hall (by change i < s'.store.chunks.length at hlt; omega) hd
  | @atEnd r _ hc hend hall =>
      -- everything is consumed already
      cases hr with
      | one _ hd hdown => rw [hall hd] at hdown; exact nomatch hdown
      | nothing _ =>
          refine ⟨h.handed, h.consumed, h.older, fun hk => absurd hk hidle,
            List.replicate (r + 1 + 1) (.ok none), ?_, .atEnd hs rfl hend hall⟩
          rw [hrest, List.append_assoc, ← List.replicate_succ']
  | failed hs' _ _ _ _ => rw [hs] at hs'; exact nomatch hs'

/-- The reader goes on to the next chunk. -/
theorem ahead (h : Reading p s readers payloads given returned) {s' : State} {k : Nat}
    (hs : s.surfaced = none) (hr : s.Consumes s') (hn : (s.current + 1).toNat < p.count)
    (hidle : ∀ j, j ≠ k → readers j = none) :
    Reading p s' (Function.update readers k (some (.fill (s.current + 1).toNat))) payloads given
      returned := by
  obtain ⟨rest, hrest, hstage⟩ := h.stage
  cases hstage with
  | reading _ hc =>
      obtain ⟨hhanded, hconsumed, hall⟩ := h.consumes hr hc
      have hnext : (s.current + 1).toNat = given.length := by omega
      have hs' := hr.surfaced.trans hs
      have hc' : s'.current + 1 = given.length := by rw [hr.current]; exact hc
      refine ⟨hhanded, hconsumed, fun hi hd => hall (by omega) hd, ?_, [], hrest,
        .reading hs' hc'⟩
      intro j r hj
      by_cases hjk : j = k
      · subst hjk
        rw [Function.update_self] at hj
        obtain rfl := Option.some.inj hj
        rw [hnext]
        exact ⟨Or.inl rfl, by omega, hs', hc', hall⟩
      · rw [Function.update_of_ne hjk, hidle j hjk] at hj
        exact nomatch hj
  | atEnd _ hc _ _ => omega
  | failed hs' _ _ _ _ => rw [hs] at hs'; exact nomatch hs'

/-- Nothing depends on anything but the store and what was handed out. -/
theorem congr (h : Reading p s readers payloads given returned) (hstore : s'.store = s.store)
    (hcurrent : s'.current = s.current) (hsurfaced : s'.surfaced = s.surfaced)
    (hreaders : ∀ {k : Nat} {r : Reader}, readers' k = some r →
      ∃ r', readers k = some r' ∧ (r = .fill given.length ∨ r = .look given.length)) :
    Reading p s' readers' payloads given returned where
  handed := by rw [hstore]; exact h.handed
  consumed := by rw [hstore]; exact h.consumed
  older := by rw [hstore]; exact h.older
  waits := by
    intro k r hr
    obtain ⟨r', hr', hnext⟩ := hreaders hr
    obtain ⟨-, hlt, hs, hc, hall⟩ := h.waits hr'
    rw [hsurfaced, hcurrent, hstore]
    exact ⟨hnext, hlt, hs, hc, hall⟩
  stage := by
    obtain ⟨rest, hrest, hstage⟩ := h.stage
    refine ⟨rest, hrest, ?_⟩
    cases hstage with
    | reading hs hc => exact .reading (hsurfaced.trans hs) (by rw [hcurrent]; exact hc)
    | atEnd hs hc hn hall =>
        exact .atEnd (hsurfaced.trans hs) (hcurrent.trans hc) hn (by rw [hstore]; exact hall)
    | failed hs hc hd hf he =>
        exact .failed (hsurfaced.trans hs) (by rw [hcurrent]; exact hc)
          (by rw [hstore]; exact hd) hf he

/-- A call that is under way goes on looking for the same chunk. -/
theorem goesOn (h : Reading p s readers payloads given returned) {k n : Nat} {r : Reader}
    (hk : readers k = some r) (hr : r = .fill n ∨ r = .look n) (hstore : s'.store = s.store)
    (hcurrent : s'.current = s.current) (hsurfaced : s'.surfaced = s.surfaced) :
    Reading p s' (Function.update readers k (some (.look n))) payloads given returned := by
  refine h.congr hstore hcurrent hsurfaced ?_
  intro j r' hj
  by_cases hjk : j = k
  · subst hjk
    rw [Function.update_self] at hj
    obtain rfl := Option.some.inj hj
    obtain ⟨hlook, -⟩ := h.waits hk
    refine ⟨r, hk, Or.inr ?_⟩
    rcases hr with rfl | rfl <;> rcases hlook with hlook | hlook <;> cases hlook <;> rfl
  · rw [Function.update_of_ne hjk] at hj
    exact ⟨r', hj, (h.waits hj).1⟩

/-- A reader gives up, and the next call looks for the same chunk. -/
theorem abandon (h : Reading p s readers payloads given returned) (k : Nat) :
    Reading p s (Function.update readers k none) payloads given returned := by
  refine h.congr rfl rfl rfl ?_
  intro j r hj
  by_cases hjk : j = k
  · subst hjk
    rw [Function.update_self] at hj
    exact nomatch hj
  · rw [Function.update_of_ne hjk] at hj
    exact ⟨r, hj, (h.waits hj).1⟩

theorem idle_update {k : Nat} (hidle : ∀ j, j ≠ k → readers j = none) {j : Nat} {r : Reader}
    (hj : Function.update readers k none j = some r) : False := by
  by_cases hjk : j = k
  · subst hjk
    rw [Function.update_self] at hj
    exact nomatch hj
  · rw [Function.update_of_ne hjk, hidle j hjk] at hj
    exact nomatch hj

/-- A reader that still looks has seen neither the end nor a failure. -/
theorem stage_of_looking (h : Reading p s readers payloads given returned) {k n : Nat}
    (hk : readers k = some (.look n)) :
    n = given.length ∧ returned = given.map (fun g => .ok (some g)) := by
  obtain ⟨hlook, hlt, hs, hc, -⟩ := h.waits hk
  have hn : n = given.length := by
    rcases hlook with hlook | hlook <;> cases hlook
    rfl
  obtain ⟨rest, hrest, hstage⟩ := h.stage
  cases hstage with
  | reading _ _ => exact ⟨hn, hrest.trans (List.append_nil _)⟩
  | atEnd _ hc' _ _ => omega
  | failed hs' _ _ _ _ => rw [hs] at hs'; exact nomatch hs'

/-- **The next chunk is handed out.** -/
theorem found (h : Reading p s readers payloads given returned) {k n : Nat} {d : Descriptor}
    {dl : Download} (hk : readers k = some (.look n)) (hidle : ∀ j, j ≠ k → readers j = none)
    (hd : s.store.chunks[n]? = some d) (hs : d.status = .downloaded)
    (hb : d.batches = some dl.batches) (hpay : payloads n = [dl]) :
    Reading p { s with current := n } (Function.update readers k none) payloads
      (given ++ [State.handleOf n d]) (returned ++ [.ok (some (State.handleOf n d))]) := by
  obtain ⟨rfl, hreturned⟩ := h.stage_of_looking hk
  obtain ⟨-, -, hsurfaced, -, hall⟩ := h.waits hk
  have hlen : (given ++ [State.handleOf given.length d]).length = given.length + 1 :=
    List.length_append
  refine ⟨?_, ?_, ?_, fun hj => (idle_update hidle hj).elim, [], ?_, .reading hsurfaced ?_⟩
  · intro i g hg
    -- a handle that was there before, or the new one at the end
    rcases Nat.lt_or_ge i given.length with hlt | hge
    · rw [List.getElem?_append_left hlt] at hg
      exact h.handed hg
    · have hi : i = given.length := by
        have := (List.getElem?_eq_some_iff.1 hg).1
        omega
      subst hi
      rw [List.getElem?_concat_length] at hg
      obtain rfl := Option.some.inj hg
      refine ⟨d, hd, Or.inl hs, rfl, rfl, rfl, dl, hpay, ?_⟩
      rw [State.handleOf, hb]
      rfl
  · intro i d' hd' hs'
    have := h.consumed hd' hs'
    omega
  · intro i d' hi hd'
    exact hall (by omega) hd'
  · rw [hreturned, List.map_append, List.append_nil]
    rfl
  · rw [hlen]
    rfl

/-- The failure of the next chunk is returned. -/
theorem failed (h : Reading p s readers payloads given returned) {k n : Nat} {d : Descriptor}
    {e : FetchError} (hk : readers k = some (.look n)) (hidle : ∀ j, j ≠ k → readers j = none)
    (hd : s.store.chunks[n]? = some d) (hf : d.status = .failed) (he : d.error = some e) :
    Reading p { s with surfaced := some e } (Function.update readers k none) payloads given
      (returned ++ [.error e]) := by
  obtain ⟨rfl, hreturned⟩ := h.stage_of_looking hk
  obtain ⟨-, -, -, hc, -⟩ := h.waits hk
  refine ⟨h.handed, h.consumed, h.older, fun hj => (idle_update hidle hj).elim, [.error e], ?_,
    .failed (r := 0) rfl hc hd hf he⟩
  rw [hreturned]

end Reading

namespace World

variable {p : Setup} {w w' : World} {m : Manifest}

/-- The reader of a world stands where it should. -/
def Reads (p : Setup) (w : World) : Prop :=
  Reading p w.state w.readers w.payloads (handles w.log) (answers w.log)

theorem Solo.idle (h : w.Solo) {k : Nat} (hk : (w.readers k).isSome) :
    ∀ j, j ≠ k → w.readers j = none := by
  intro j hj
  cases hr : w.readers j with
  | none => rfl
  | some r => exact absurd (h j k (by rw [hr]; rfl) hk) hj

theorem handles_of_answers {log log' : List Event} {as : List Answer}
    (h : answers log' = answers log ++ as) : handles log' = handles log ++ as.filterMap (fun
      | .ok handle => handle
      | .error _ => none) := by
  rw [handles, h, List.filterMap_append]
  rfl

/-- The payloads of settled chunks stay as they are when a task hears an answer. -/
theorem payloads_of_hear (hsound : Consistent p w.state w.points w.broken w.payloads) {i : Nat}
    {signal : Signal} {addition : Duration} {l : Leg}
    (hl : w.state.hear p addition i signal = some l) {j : Nat} {d : Descriptor}
    (hd : w.state.store.chunks[j]? = some d) (hs : d.status = .downloaded ∨ d.status = .consumed) :
    (w.hears i signal).payloads j = w.payloads j := by
  refine payloads_hears_ne w signal ?_
  rintro rfl
  obtain ⟨phase, hph, hne⟩ := State.hear_phase hl
  -- the task of a settled chunk has ended and hears nothing
  have hended := ((hsound.fits hd).ended (hs.imp id Or.inl)).1
  rw [hph] at hended
  exact hne (Option.some.inj hended)

theorem reads_called (hsound : Consistent p w.state w.points w.broken w.payloads)
    (hopen : w.state.closed = false) (h : Reads p w) {k : Nat} (now : Moment)
    (hsolo : (w.runReader now k .fill (w.state.moveOn p)).Solo) :
    Reads p (w.runReader now k .fill (w.state.moveOn p)) := by
  have hmoves := State.moveOn_moves (p := p) hopen hsound.size
  generalize w.state.moveOn p = r at hmoves hsolo
  unfold Reads
  cases hmoves with
  | @again e hs =>
      have hans := answers_done w now k .fill w.state [] (.error e)
      have hgiven := (handles_of_answers hans).trans (List.append_nil _)
      rw [hgiven, hans, payloads_runReader]
      exact (h.again hs).abandon k
  | @past s' effects hs hr hn =>
      have hans := answers_done w now k .fill { s' with current := p.count } effects (.ok none)
      have hgiven := (handles_of_answers hans).trans (List.append_nil _)
      rw [hgiven, hans, payloads_runReader]
      exact (h.past hsound.size hs hr hn).abandon k
  | @ahead s' effects hs hr hn =>
      have hans := answers_waiting w now k .fill s' effects (w.state.current + 1).toNat
      have hgiven : handles (w.runReader now k .fill
          (s', effects, .waiting (w.state.current + 1).toNat)).log = handles w.log := by
        rw [handles, hans]
        rfl
      have hidle : ∀ j, j ≠ k → w.readers j = none := by
        intro j hj
        have hk : ((w.runReader now k .fill
            (s', effects, .waiting (w.state.current + 1).toNat)).readers k).isSome := by
          change (Function.update w.readers k _ k).isSome = true
          rw [Function.update_self]
          rfl
        have hnone := hsolo.idle hk j hj
        change Function.update w.readers k _ j = none at hnone
        rw [Function.update_of_ne hj] at hnone
        exact hnone
      rw [hgiven, hans, payloads_runReader]
      exact h.ahead hs hr hn hidle

theorem reads_looked (hsound : Consistent p w.state w.points w.broken w.payloads)
    (hopen : w.state.closed = false) (h : Reads p w) {k n : Nat} (now : Moment)
    (hk : w.readers k = some (.look n)) (hsolo : w.Solo) :
    Reads p (w.runReader now k .look (w.state.look now.elapsed n)) := by
  have hidle := hsolo.idle (k := k) (by rw [hk]; rfl)
  obtain ⟨rfl, -⟩ := h.stage_of_looking hk
  obtain ⟨-, hlt, -⟩ := h.waits hk
  obtain ⟨d, hd⟩ := Store.exists_chunk (s := w.state.store) (by rw [hsound.size]; exact hlt)
  have hfit := hsound.fits hd
  have hlooks := State.look_looks hopen hd now.elapsed
  generalize w.state.look now.elapsed (handles w.log).length = r at hlooks
  unfold Reads
  cases hlooks with
  | found effects hs =>
      have hans := answers_done w now k .look
        { w.state with current := ((handles w.log).length : Int) } effects
        (.ok (some (State.handleOf (handles w.log).length d)))
      have hpaid : ∃ dl, w.payloads (handles w.log).length = [dl]
          ∧ d.batches = some dl.batches := by
        have hp := hfit.paid
        rw [(hfit.ended (Or.inl hs)).2] at hp
        change Settles _ _ _ _ at hp
        unfold Settles at hp
        rw [hs] at hp
        obtain ⟨dl, h1, h2, -⟩ := hp
        exact ⟨dl, h1, h2⟩
      obtain ⟨dl, hpay, hb⟩ := hpaid
      rw [handles_of_answers hans, hans, payloads_runReader]
      exact h.found hk hidle hd hs hb hpay
  | failed hs =>
      obtain ⟨e, he⟩ := Option.isSome_iff_exists.1 (hfit.error.2 hs)
      have hfail : State.failureOf (handles w.log).length d = e := by rw [State.failureOf, he]; rfl
      have hans := answers_done w now k .look
        { w.state with surfaced := some (State.failureOf (handles w.log).length d) } []
        (.error (State.failureOf (handles w.log).length d))
      have hgiven := (handles_of_answers hans).trans (List.append_nil _)
      rw [hgiven, hans, payloads_runReader, hfail]
      exact h.failed hk hidle hd hs he
  | gone hs =>
      -- the chunk that is looked for was not handed out yet, so it cannot be consumed
      rcases hs with hs | hs
      · exact absurd (h.consumed hd hs) (Nat.lt_irrefl _)
      · exact absurd hs hfit.ne_released
  | wait hw =>
      have hans := answers_waiting w now k .look w.state [] (handles w.log).length
      have hgiven : handles (w.runReader now k .look
          (w.state, [], .waiting (handles w.log).length)).log = handles w.log := by
        rw [handles, hans]
        rfl
      rw [hgiven, hans, payloads_runReader]
      exact h.goesOn hk (Or.inr rfl) rfl rfl rfl

/-- Before the first claim nothing was handed out. -/
theorem reads_start {config : FetchConfig} {method : Method} {opened : Move}
    (hcreate : create m config method = .ok (p, opened)) (now : Moment) :
    Reads p (start now opened) := by
  obtain ⟨rfl, entry, rfl⟩ := create_eq hcreate
  have hans : answers (start now (((State.ofManifest m).fill
      (Setup.ofManifest m config method)).after [Effect.note entry])).log = [] := answers_did _ _
  have hgiven : handles (start now (((State.ofManifest m).fill
      (Setup.ofManifest m config method)).after [Effect.note entry])).log = [] := handles_did _ _
  have hpending : ∀ {i : Nat} {d : Descriptor}, (State.ofManifest m).store.chunks[i]? = some d →
      d.status = .pending := by
    intro i d hd
    obtain ⟨c, -, rfl⟩ := List.mem_map.1 (List.mem_of_getElem? hd)
    rfl
  have hbefore : Reading (Setup.ofManifest m config method) (State.ofManifest m) (fun _ => none)
      (fun _ => []) [] [] := by
    refine ⟨nofun, ?_, ?_, nofun, [], rfl, .reading rfl rfl⟩
    · intro i d hd hs
      rw [hpending hd] at hs
      exact nomatch hs
    · intro i d hi
      exact nomatch hi
  unfold Reads
  rw [hgiven, hans, payloads_start]
  obtain ⟨tasks, held, peak, inFlight, hframe⟩ :=
    State.fill_frame (Setup.ofManifest m config method) (State.ofManifest m)
  change Reading _ (State.fill _ (State.ofManifest m)).state _ _ _ _
  rw [hframe]
  exact hbefore.congr rfl rfl rfl nofun

/-- **The reader stands where it should in every solo world with an open provider.** -/
theorem reads_reachable {config : FetchConfig} {method : Method} {opened : Move}
    (hcreate : create m config method = .ok (p, opened)) (h : SoloReachable p opened w) :
    w.Solo ∧ (w.state.closed = false → Reads p w) := by
  refine h.keeps (P := fun w => w.Solo ∧ (w.state.closed = false → Reads p w)) ?_ ?_
  · exact fun now => ⟨fun j k hj => (nomatch hj), fun _ => reads_start hcreate now⟩
  · intro w w' hw ih htaken hsolo'
    refine ⟨hsolo', fun hopen' => ?_⟩
    have hopen := htaken.open hopen'
    have hsound := sound_reachable hcreate hw.reachable hopen
    have hreads := ih.2 hopen
    cases htaken with
    | @heard i signal l now addition hp hl =>
        have hq := State.hear_quiet hl
        unfold Reads
        rw [handles_runLeg, handles_hears, answers_runLeg, answers_hears, payloads_runLeg]
        exact hreads.keeps hq.keeps hq.size (fun hd hs => payloads_of_hear hsound hl hd hs)
    | @ran i pt now addition hp =>
        unfold Reads
        rw [handles_runLeg, answers_runLeg, payloads_runLeg]
        by_cases hpt : ∃ r, pt = .finish r
        · obtain ⟨r, rfl⟩ := hpt
          refine hreads.keeps (hsound.complete_keeps hopen hp now) ?_ (fun _ _ => rfl)
          rw [hsound.size]
          exact (hsound.complete hopen hp).size
        · have hq := State.leg_quiet p w.state now addition i (not_exists.1 hpt)
          exact hreads.keeps hq.keeps hq.size (fun _ _ => rfl)
    | called now hk => exact reads_called hsound hopen hreads now hsolo'
    | @filled k n now hk =>
        have hans := answers_waiting w now k .look (w.state.fill p).state (w.state.fill p).effects n
        have hgiven : handles (w.runReader now k .look (w.state.claims p n)).log = handles w.log := by
          rw [handles, State.claims, hans]
          rfl
        unfold Reads
        rw [hgiven, State.claims, hans, payloads_runReader]
        obtain ⟨tasks, held, peak, inFlight, hframe⟩ := State.fill_frame p w.state
        rw [hframe]
        exact hreads.goesOn hk (Or.inl rfl) rfl rfl rfl
    | looked now hk => exact reads_looked hsound hopen hreads now hk ih.1
    | abandoned hk => exact hreads.abandon _
    | closed now => exact absurd hopen' (not_open_of_close w now)

end World

end ResultChunks.Provider
