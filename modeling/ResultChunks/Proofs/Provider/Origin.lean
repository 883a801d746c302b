import ResultChunks.Proofs.Provider.Calls

/-!
# Where links and extents come from

No step changes the extent of a chunk, and a chunk gets no link but the one that its manifest has for
it and links that name it. So every download of a task is made with such a link, and every payload
that arrived was asked for with one.
-/

namespace ResultChunks.Provider

/-- The link names the chunk, or the manifest has it for the chunk. -/
def Named (m : Manifest) (i : Nat) (l : Link) : Prop :=
  l.chunkIndex = i ∨ ∃ c, m.chunks[i]? = some c ∧ c.link = some l

/-- Each chunk has the extent it had, and the link it had or one that names it. -/
structure Alike (s s' : State) : Prop where
  chunk : ∀ {j : Nat} {d' : Descriptor}, s'.store.chunks[j]? = some d' →
    ∃ d, s.store.chunks[j]? = some d ∧ d'.rowOffset = d.rowOffset ∧ d'.rowCount = d.rowCount
      ∧ (d'.link = d.link ∨ ∃ l, d'.link = some l ∧ l.chunkIndex = j)

section

variable {p : Setup} {s s' : State} {i : Nat} {d d' : Descriptor} {now : Moment}

theorem Alike.same (h : s'.store = s.store) : Alike s s' := by
  constructor
  intro j d' hd'
  rw [h] at hd'
  exact ⟨d', hd', rfl, rfl, Or.inl rfl⟩

/-- One chunk was replaced by one of the same extent and link. -/
theorem Alike.set (hd : s.store.chunks[i]? = some d) (h : s'.store = ⟨s.store.chunks.set i d'⟩)
    (hoffset : d'.rowOffset = d.rowOffset) (hcount : d'.rowCount = d.rowCount)
    (hlink : d'.link = d.link) : Alike s s' := by
  constructor
  intro j dj hdj
  rw [h] at hdj
  rcases Store.chunk_of_set hdj with ⟨rfl, rfl⟩ | ⟨-, hold⟩
  · exact ⟨d, hd, hoffset, hcount, Or.inl hlink⟩
  · exact ⟨dj, hold, rfl, rfl, Or.inl rfl⟩

theorem Quiet.alike (h : Quiet i s s') : Alike s s' := by
  constructor
  intro j d' hd'
  have hlt := Store.lt_of_chunk hd'
  rw [h.size] at hlt
  obtain ⟨d, hd⟩ := Store.exists_chunk hlt
  have linked : ∀ {o : Option Link}, LinkFor j d o →
      o = d.link ∨ ∃ l, o = some l ∧ l.chunkIndex = j := by
    rintro o (rfl | ⟨-, l, hl, hj⟩)
    · exact Or.inl rfl
    · exact Or.inr ⟨l, hl, hj⟩
  by_cases hj : j = i
  · subst hj
    obtain ⟨o, st, ho, hfor, -⟩ := h.own hd
    rw [ho] at hd'
    obtain rfl := Option.some.inj hd'
    exact ⟨d, hd, rfl, rfl, linked hfor⟩
  · obtain ⟨o, ho, hfor⟩ := h.others hj hd
    rw [ho] at hd'
    obtain rfl := Option.some.inj hd'
    exact ⟨d, hd, rfl, rfl, linked hfor⟩

theorem Consistent.complete_alike {points : Nat → Option Point} {broken : Nat → Bool}
    {payloads : Nat → List Download} (h : Consistent p s points broken payloads)
    (hc : s.closed = false) {r : TaskResult} (hp : points i = some (.finish r)) (now : Moment) :
    Alike s (s.complete now i r).state := by
  obtain ⟨phase, ht, -⟩ := h.running hp
  obtain ⟨d, hd⟩ := h.chunk ht
  have hfit := h.fits hd
  rw [ht, hp] at hfit
  rcases complete_cases now hc hd hfit with ⟨dl, -, -, heq⟩ | ⟨e, heq, -⟩
  · rw [heq]
    exact Alike.set hd rfl rfl rfl rfl
  · rw [heq]
    exact Alike.set hd rfl rfl rfl rfl

theorem State.Consumes.alike (h : s.Consumes s') : Alike s s' := by
  cases h with
  | nothing _ => exact Alike.same rfl
  | one _ hd _ => exact Alike.set hd rfl rfl rfl rfl

theorem State.Moves.alike {r : State × List Effect × Progress} (h : s.Moves p r) :
    Alike s r.1 := by
  cases h with
  | again _ => exact Alike.same rfl
  | past effects _ hr _ => exact ⟨hr.alike.chunk⟩
  | ahead effects _ hr _ => exact hr.alike

theorem State.fill_store (p : Setup) (s : State) : (s.fill p).state.store = s.store := by
  obtain ⟨tasks, held, peak, inFlight, h⟩ := fill_frame p s
  rw [h]

end

namespace World

variable {p : Setup} {w w' : World} {m : Manifest}

/-- **No step of an open provider changes extents or brings wrong links.** -/
theorem Taken.alike (h : Taken p w w') (hsound : Sound p w) (hopen' : w'.state.closed = false) :
    Alike w.state w'.state := by
  have hopen := h.open hopen'
  have hw := hsound hopen
  cases h with
  | heard now hp hl => exact (State.hear_quiet hl).alike
  | @ran i pt now addition hp =>
      by_cases hpt : ∃ r, pt = .finish r
      · obtain ⟨r, rfl⟩ := hpt
        exact hw.complete_alike hopen hp now
      · exact (State.leg_quiet p w.state now addition i (not_exists.1 hpt)).alike
  | called now hk =>
      rw [state_runReader]
      exact (State.moveOn_moves hopen hw.size).alike
  | filled now hk => exact Alike.same (State.fill_store p w.state)
  | @looked k n now hk =>
      obtain ⟨current, surfaced, hframe⟩ := State.look_frame w.state now.elapsed n
      rw [state_runReader, hframe]
      exact Alike.same rfl
  | abandoned hk => exact Alike.same rfl
  | closed now => exact absurd hopen' (not_open_of_close w now)

/-- Extents are those of the manifest, and all links name their chunks or come from it. -/
structure Origin (m : Manifest) (w : World) : Prop where
  extent : ∀ {i : Nat} {d : Descriptor}, w.state.store.chunks[i]? = some d →
    ∃ c, m.chunks[i]? = some c ∧ d.rowOffset = c.rowOffset ∧ d.rowCount = c.rowCount
  link : ∀ {i : Nat} {d : Descriptor} {l : Link}, w.state.store.chunks[i]? = some d →
    d.link = some l → Named m i l
  /-- A download under way uses such a link. -/
  call : ∀ {i : Nat} {l : Link}, (dialogue i w.log).underWay = some (.payload l) → Named m i l
  /-- So did the downloads that brought payloads. -/
  fetched : ∀ {i : Nat} {e : Link × Download}, e ∈ (dialogue i w.log).fetched → Named m i e.1

/-- What a step does to the store and to the dialogues keeps the origin. -/
theorem Origin.step (h : Origin m w) (hstore : Alike w.state w'.state)
    (hcall : ∀ {i : Nat} {l : Link}, (dialogue i w'.log).underWay = some (.payload l) →
      (dialogue i w.log).underWay = some (.payload l)
        ∨ ∃ d, w'.state.store.chunks[i]? = some d ∧ d.link = some l)
    (hfetched : ∀ {i : Nat} {e : Link × Download}, e ∈ (dialogue i w'.log).fetched →
      e ∈ (dialogue i w.log).fetched ∨ (dialogue i w.log).underWay = some (.payload e.1)) :
    Origin m w' := by
  have hlink : ∀ {i : Nat} {d : Descriptor} {l : Link}, w'.state.store.chunks[i]? = some d →
      d.link = some l → Named m i l := by
    intro i d l hd hl
    obtain ⟨d₀, hd₀, -, -, hsame | ⟨l', hl', hi⟩⟩ := hstore.chunk hd
    · exact h.link hd₀ (hsame ▸ hl)
    · rw [hl] at hl'
      obtain rfl := Option.some.inj hl'
      exact Or.inl hi
  refine ⟨?_, hlink, ?_, ?_⟩
  · intro i d hd
    obtain ⟨d₀, hd₀, hoffset, hcount, -⟩ := hstore.chunk hd
    obtain ⟨c, hc, h1, h2⟩ := h.extent hd₀
    exact ⟨c, hc, hoffset.trans h1, hcount.trans h2⟩
  · intro i l hl
    rcases hcall hl with hold | ⟨d, hd, hdl⟩
    · exact h.call hold
    · exact hlink hd hdl
  · intro i e he
    rcases hfetched he with hold | hcalled
    · exact h.fetched hold
    · exact h.call hcalled

/-- So does a leg of a task, which downloads with the link that is stored then. -/
theorem Origin.runLeg (h : Origin m w) {v : World} {i : Nat} {l : Leg} (now : Moment)
    (hstore : Alike w.state l.state) (hl : LegCalls i l)
    (hidle : (dialogue i v.log).underWay = none)
    (hfetched : ∀ e ∈ (dialogue i v.log).fetched,
      e ∈ (dialogue i w.log).fetched ∨ (dialogue i w.log).underWay = some (.payload e.1))
    (hothers : ∀ {j : Nat}, j ≠ i → dialogue j v.log = dialogue j w.log) :
    Origin m (v.runLeg now i l) := by
  obtain ⟨c, hc, -, hcall⟩ := hl
  have hself : dialogue i (v.runLeg now i l).log = { dialogue i v.log with underWay := c } :=
    dialogue_calls hc hidle now
  have hother : ∀ {j : Nat}, j ≠ i → dialogue j (v.runLeg now i l).log = dialogue j w.log :=
    fun hj => (dialogue_calls_ne hj hc now _).trans (hothers hj)
  refine h.step hstore ?_ ?_
  · intro j link hlink
    by_cases hj : j = i
    · subst hj; rw [hself] at hlink; exact Or.inr (hcall link hlink)
    · rw [hother hj] at hlink; exact Or.inl hlink
  · intro j e he
    by_cases hj : j = i
    · subst hj; rw [hself] at he; exact hfetched e he
    · rw [hother hj] at he; exact Or.inl he

/-- So does a leg of a reader, which makes no calls. -/
theorem Origin.runReader (h : Origin m w) {r : State × List Effect × Progress}
    (hstore : Alike w.state r.1) (hr : callsIn r.2.1 = []) (now : Moment) (k : Nat)
    (wait : Nat → Reader) : Origin m (w.runReader now k wait r) := by
  refine h.step (by rw [state_runReader]; exact hstore) ?_ ?_
  · intro i l hl
    rw [dialogue_runReader hr] at hl
    exact Or.inl hl
  · intro i e he
    rw [dialogue_runReader hr] at he
    exact Or.inl he

theorem origin_start {config : FetchConfig} {method : Method} {opened : Move}
    (hcreate : create m config method = .ok (p, opened)) (now : Moment) :
    Origin m (start now opened) := by
  obtain ⟨rfl, entry, rfl⟩ := create_eq hcreate
  have hquiet : callsIn (((State.ofManifest m).fill (Setup.ofManifest m config method)).after
      [Effect.note entry]).effects = [] := fill_calls _ _
  have hlog : ∀ i, dialogue i (start now _).log = {} := fun i => dialogue_quiet hquiet now []
  have hchunk : ∀ {i : Nat} {d : Descriptor}, (start now
      (((State.ofManifest m).fill (Setup.ofManifest m config method)).after
        [Effect.note entry])).state.store.chunks[i]? = some d →
      ∃ c, m.chunks[i]? = some c ∧ d = Descriptor.ofMeta c := by
    intro i d hd
    change ((State.ofManifest m).fill _).state.store.chunks[i]? = some d at hd
    rw [State.fill_store] at hd
    obtain ⟨c, hc, rfl⟩ := (List.getElem?_map ..).symm.trans hd |> Option.map_eq_some_iff.1
    exact ⟨c, hc, rfl⟩
  refine ⟨?_, ?_, ?_, ?_⟩
  · intro i d hd
    obtain ⟨c, hc, rfl⟩ := hchunk hd
    exact ⟨c, hc, rfl, rfl⟩
  · intro i d l hd hl
    obtain ⟨c, hc, rfl⟩ := hchunk hd
    exact Or.inr ⟨c, hc, hl⟩
  · intro i l hl
    rw [hlog] at hl
    exact nomatch hl
  · intro i e he
    rw [hlog] at he
    exact nomatch he

/-- **In every reachable world with an open provider, extents and links have their origin.** -/
theorem origin_reachable {config : FetchConfig} {method : Method} {opened : Move}
    (hcreate : create m config method = .ok (p, opened)) (h : Reachable p opened w) :
    w.state.closed = false → Origin m w := by
  refine h.keeps (P := fun w => w.state.closed = false → Origin m w)
    (fun now _ => origin_start hcreate now) ?_
  intro w w' hw ih htaken hopen'
  have hopen := htaken.open hopen'
  have hsound := sound_reachable hcreate hw
  have htalks := talks_reachable hcreate hw hopen
  have halike := htaken.alike hsound hopen'
  cases htaken with
  | @heard i signal l now addition hp hl =>
      obtain ⟨hidle, more, hmore, -, hunder⟩ := (htalks i).heard hp hl
      refine (ih hopen).runLeg now halike (hear_calls hl) hidle ?_ (fun hj =>
        dialogue_heard_ne hj _ _)
      intro e he
      rw [hmore] at he
      exact (List.mem_append.1 he).imp id (hunder e)
  | @ran i pt now addition hp =>
      obtain ⟨phase, hph, -⟩ := (hsound hopen).running hp
      exact (ih hopen).runLeg now halike (leg_calls hph pt) ((htalks i).idle hp)
        (fun e he => Or.inl he) (fun _ => rfl)
  | @called k now hk =>
      rw [state_runReader] at halike
      exact (ih hopen).runReader halike (moveOn_calls p w.state) now k _
  | @filled k n now hk => exact (ih hopen).runReader halike (fill_calls p w.state) now k _
  | @looked k n now hk =>
      rw [state_runReader] at halike
      exact (ih hopen).runReader halike (look_calls w.state now.elapsed n) now k _
  | abandoned hk =>
      have ho := ih hopen
      exact ⟨ho.extent, ho.link, ho.call, ho.fetched⟩
  | closed now => exact absurd hopen' (not_open_of_close w now)

end World

end ResultChunks.Provider
