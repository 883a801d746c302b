import ResultChunks.Proofs.Provider.Delivery

/-!
# Chunks are handed out in order

The handles that the calls of a single reader returned are those of the chunks at the front of the
result, each with the extent from the manifest and the batches of the one payload that the chunk's
task fetched, with a link of that chunk. The end is returned after the last chunk only, and then
nothing is held and nothing is under way.

While the provider is open this is read off the invariants. A close changes nothing about it: the
tasks of chunks that were handed out have ended, so they hear nothing more.
-/

namespace ResultChunks.Provider.World

variable {p : Setup} {w w' : World} {m : Manifest} {config : FetchConfig} {method : Method}
  {opened : Move}

/-! ## Only claimed chunks have tasks that run -/

/-- A task in the middle of a stretch is that of a claimed chunk, even after a close. -/
theorem pointed_reachable (h : Reachable p opened w) {i : Nat} {pt : Point}
    (hp : w.points i = some pt) : i < w.state.next := by
  have key : ∀ i, (w.points i).isSome = true → i < w.state.next := by
    refine h.keeps (P := fun w => ∀ i, (w.points i).isSome = true → i < w.state.next) nofun ?_
    intro w w' _ ih htaken i hi
    -- a leg goes on with its own task, and leaves the others where they are
    have leg : ∀ {j : Nat} {l : Leg}, j < w.state.next → l.state.next = w.state.next →
        (Function.update w.points j l.next i).isSome = true → i < l.state.next := by
      intro j l hj hnext hi
      rw [hnext]
      by_cases hij : i = j
      · rw [hij]; exact hj
      · rw [Function.update_of_ne hij] at hi; exact ih i hi
    cases htaken with
    | heard now hp hl =>
        obtain ⟨phase, hph, -⟩ := State.hear_phase hl
        exact leg (State.lt_next hph) (State.hear_quiet hl).next hi
    | @ran j pt now addition hp =>
        exact leg (ih j (by rw [hp]; rfl)) (leg_next _ _ _ _ _) hi
    | called now hk =>
        rw [points_runReader] at hi
        obtain ⟨store, held, current, hframe⟩ := State.moveOn_frame p w.state
        rw [state_runReader, hframe]
        exact ih i hi
    | filled now hk => exact Nat.lt_of_lt_of_le (ih i hi) (next_fill w.state)
    | @looked k n now hk =>
        rw [points_runReader] at hi
        obtain ⟨current, surfaced, hframe⟩ := State.look_frame w.state now.elapsed n
        rw [state_runReader, hframe]
        exact ih i hi
    | abandoned hk => exact ih i hi
    | closed now =>
        change i < w.state.close.state.tasks.length
        rw [close_tasks]
        exact ih i hi
  exact key i (by rw [hp]; rfl)

/-! ## What was delivered -/

/-- A chunk was handed out as it should be, and its task will not run again. -/
structure Delivers (m : Manifest) (w : World) (i : Nat) (h : Handle) : Prop where
  index : h.index = i
  extent : ∃ c, m.chunks[i]? = some c ∧ h.rowOffset = c.rowOffset ∧ h.rowCount = c.rowCount
  batches : ∃ link dl, (dialogue i w.log).fetched = [(link, dl)] ∧ link.chunkIndex = i
    ∧ h.batches = dl.batches
  ended : w.state.tasks[i]? = some .ended
  idle : w.points i = none

/-- Every chunk was handed out and consumed, and nothing is held or under way. -/
structure Over (p : Setup) (w : World) : Prop where
  given : (handles w.log).length = p.count
  consumed : ∀ {i : Nat} {d : Descriptor}, w.state.store.chunks[i]? = some d →
    d.status = .consumed ∧ d.batches = none
  held : w.state.held = 0
  inFlight : w.state.inFlight = []
  ended : ∀ {i : Nat} {phase : Phase}, w.state.tasks[i]? = some phase → phase = .ended
  idle : ∀ i, w.points i = none

/-- What the calls returned is right. -/
structure Delivered (m : Manifest) (p : Setup) (w : World) : Prop where
  each : ∀ {i : Nat} {h : Handle}, (handles w.log)[i]? = some h → Delivers m w i h
  atEnd : (.ok none : Answer) ∈ answers w.log → Over p w

/-- The embedded links of a manifest name the chunks that they are for. -/
def OwnLinks (m : Manifest) : Prop :=
  ∀ {i : Nat} {c : ChunkMeta} {l : Link}, m.chunks[i]? = some c → c.link = some l →
    l.chunkIndex = i

theorem own_of_named {i : Nat} {l : Link} (h : Named m i l) (hlinks : OwnLinks m) :
    l.chunkIndex = i := by
  rcases h with h | ⟨c, hc, hl⟩
  · exact h
  · exact hlinks hc hl

/-- Once all chunks are consumed, all tasks have ended. -/
theorem over_of_consumed (h : Consistent p w.state w.points w.broken w.payloads)
    (hgiven : (handles w.log).length = p.count)
    (hall : ∀ {i : Nat} {d : Descriptor}, w.state.store.chunks[i]? = some d →
      d.status = .consumed) : Over p w := by
  have hended : ∀ {i : Nat} {phase : Phase}, w.state.tasks[i]? = some phase →
      phase = .ended ∧ w.points i = none := by
    intro i phase hph
    obtain ⟨d, hd⟩ := h.chunk hph
    obtain ⟨h1, h2⟩ := (h.fits hd).ended (Or.inr (Or.inl (hall hd)))
    rw [hph] at h1
    exact ⟨Option.some.inj h1, h2⟩
  refine ⟨hgiven, ?_, ?_, ?_, fun hph => (hended hph).1, ?_⟩
  · intro i d hd
    refine ⟨hall hd, Option.not_isSome_iff_eq_none.1 fun hb => ?_⟩
    have hs := (h.fits hd).batches.1 hb
    rw [hall hd] at hs
    exact nomatch hs
  · rw [h.held]
    refine List.countP_eq_zero.2 ?_
    intro d hd
    obtain ⟨i, hi⟩ := List.mem_iff_getElem?.1 (List.mem_of_mem_take hd)
    rw [hall hi]
    exact nofun
  · refine List.eq_nil_iff_forall_not_mem.2 ?_
    intro i hi
    obtain ⟨phase, hph, hne⟩ := h.flight.1 hi
    exact hne (hended hph).1
  · intro i
    cases hp : w.points i with
    | none => rfl
    | some pt =>
        obtain ⟨phase, hph, -⟩ := h.running hp
        rw [(hended hph).2] at hp
        exact nomatch hp

/-- While the provider is open, the end is returned only after all chunks. -/
theorem over_of_end (hcreate : create m config method = .ok (p, opened))
    (hw : SoloReachable p opened w) (hopen : w.state.closed = false)
    (hnone : (.ok none : Answer) ∈ answers w.log) : Over p w := by
  obtain ⟨rest, hrest, hstage⟩ := ((reads_reachable hcreate hw).2 hopen).stage
  rw [hrest] at hnone
  have hmem : (.ok none : Answer) ∈ rest := by
    rcases List.mem_append.1 hnone with hin | hin
    · obtain ⟨g, -, hg⟩ := List.mem_map.1 hin
      cases hg
    · exact hin
  cases hstage with
  | reading _ _ => cases hmem
  | failed _ _ _ _ _ => cases List.eq_of_mem_replicate hmem
  | atEnd _ _ hend hall =>
      exact over_of_consumed (sound_reachable hcreate hw.reachable hopen) hend hall

/-- **While the provider is open, what was delivered is right.** -/
theorem delivered_of_open (hcreate : create m config method = .ok (p, opened))
    (hlinks : OwnLinks m) (hw : SoloReachable p opened w) (hopen : w.state.closed = false) :
    Delivered m p w := by
  have hsound := sound_reachable hcreate hw.reachable hopen
  have hreads := (reads_reachable hcreate hw).2 hopen
  have horigin := origin_reachable hcreate hw.reachable hopen
  have htalks := talks_reachable hcreate hw.reachable hopen
  refine ⟨?_, over_of_end hcreate hw hopen⟩
  intro i h hi
  obtain ⟨d, hd, hh⟩ := hreads.handed hi
  obtain ⟨hended, hidle⟩ := (hsound.fits hd).ended (hh.status.imp id Or.inl)
  obtain ⟨c, hc, hoffset, hcount⟩ := horigin.extent hd
  obtain ⟨dl, hpay, hbatches⟩ := hh.batches
  have hmap := (htalks i).fetched
  rw [hpay] at hmap
  obtain ⟨⟨link, dl'⟩, hfetched, hdl⟩ := List.map_eq_singleton_iff.1 hmap
  obtain rfl : dl' = dl := hdl
  have hnamed := horigin.fetched (i := i) (e := (link, dl'))
    (by rw [hfetched]; exact List.mem_singleton_self _)
  exact ⟨hh.index, ⟨c, hc, hh.offset.trans hoffset, hh.count.trans hcount⟩,
    ⟨link, dl', hfetched, own_of_named hnamed hlinks, hbatches⟩, hended, hidle⟩

/-! ## After a close -/

theorem releaseOne_consumed {d : Descriptor} (hs : d.status = .consumed) :
    (Store.releaseOne d).status = .consumed := by
  rw [Store.releaseOne, hs]
  rfl

/-- A close takes nothing back. -/
theorem Delivered.close (h : Delivered m p w) (now : Moment) :
    Delivered m p (w.move now w.state.close.state w.state.close.effects) := by
  have hans : answers (w.move now w.state.close.state w.state.close.effects).log =
      answers w.log := answers_move ..
  have hgiven : handles (w.move now w.state.close.state w.state.close.effects).log =
      handles w.log := by rw [handles, hans]; rfl
  have htasks : (w.move now w.state.close.state w.state.close.effects).state.tasks =
      w.state.tasks := close_tasks w.state
  constructor
  · intro i g hi
    rw [hgiven] at hi
    obtain ⟨hindex, hextent, hbatches, hended, hidle⟩ := h.each hi
    refine ⟨hindex, hextent, ?_, by rw [htasks]; exact hended, hidle⟩
    have hlog : dialogue i (w.move now w.state.close.state w.state.close.effects).log =
        dialogue i w.log := dialogue_quiet (close_calls w.state) now _
    rw [hlog]
    exact hbatches
  · intro hnone
    rw [hans] at hnone
    obtain ⟨hend, hconsumed, hheld, hflight, hended, hidle⟩ := h.atEnd hnone
    refine ⟨by rw [hgiven]; exact hend, ?_, ?_, ?_, by rw [htasks]; exact hended, hidle⟩
    · intro i d hd
      change w.state.close.state.store.chunks[i]? = some d at hd
      rw [State.close] at hd
      split at hd
      · exact hconsumed hd
      · obtain ⟨d₀, hd₀, rfl⟩ := Option.map_eq_some_iff.1 (List.getElem?_map.symm.trans hd)
        exact ⟨releaseOne_consumed (hconsumed hd₀).1, rfl⟩
    · change w.state.close.state.held = 0
      rw [State.close]
      split
      · exact hheld
      · rfl
    · change w.state.close.state.inFlight = []
      rw [State.close]
      split
      · exact hflight
      · rfl

/-- A leg of some other task takes nothing back. -/
theorem Delivered.leg (h : Delivered m p w) {v : World} {i : Nat} {l : Leg} (now : Moment)
    (hcalls : LegCalls i l) (htasks : ∀ {j : Nat}, j ≠ i → l.state.tasks[j]? = w.state.tasks[j]?)
    (hpoints : v.points = w.points) (hans : answers v.log = answers w.log)
    (hlog : ∀ {j : Nat}, j ≠ i → dialogue j v.log = dialogue j w.log)
    (hbusy : w.points i = none → ∃ phase, w.state.tasks[i]? = some phase ∧ phase ≠ .ended) :
    Delivered m p (v.runLeg now i l) := by
  obtain ⟨c, hc, -⟩ := hcalls
  have hgiven : handles (v.runLeg now i l).log = handles w.log := by
    rw [handles_runLeg, handles, hans]
    rfl
  constructor
  · intro j g hj
    rw [hgiven] at hj
    obtain ⟨hindex, hextent, hbatches, hended, hidle⟩ := h.each hj
    -- the task of a chunk that was handed out has ended, so it is not the one that runs
    have hji : j ≠ i := by
      rintro rfl
      obtain ⟨phase, hph, hne⟩ := hbusy hidle
      rw [hended] at hph
      exact hne (Option.some.inj hph).symm
    refine ⟨hindex, hextent, ?_, (htasks hji).trans hended, ?_⟩
    · have hsame : dialogue j (v.runLeg now i l).log = dialogue j w.log :=
        (dialogue_calls_ne hji hc now v.log).trans (hlog hji)
      rw [hsame]
      exact hbatches
    · rw [points_runLeg, Function.update_of_ne hji, hpoints]
      exact hidle
  · intro hnone
    rw [answers_runLeg, hans] at hnone
    obtain ⟨phase, hph, hne⟩ := hbusy ((h.atEnd hnone).idle i)
    exact absurd ((h.atEnd hnone).ended hph) hne

/-- A reader of a closed provider gets no handle and not the end, and changes nothing. -/
theorem Delivered.refused (h : Delivered m p w) {v : World} (hstate : v.state = w.state)
    (hpoints : v.points = w.points) (hlog : ∀ i, dialogue i v.log = dialogue i w.log)
    (refusals : List Answer) (hrefused : ∀ a ∈ refusals, a = .error .closed)
    (hans : answers v.log = answers w.log ++ refusals) : Delivered m p v := by
  have hgiven : handles v.log = handles w.log := by
    rw [handles_of_answers hans, List.filterMap_eq_nil_iff.2 ?_, List.append_nil]
    intro a ha
    rw [hrefused a ha]
  constructor
  · intro i g hi
    rw [hgiven] at hi
    obtain ⟨hindex, hextent, hbatches, hended, hidle⟩ := h.each hi
    exact ⟨hindex, hextent, by rw [hlog]; exact hbatches, by rw [hstate]; exact hended,
      by rw [hpoints]; exact hidle⟩
  · intro hnone
    rw [hans] at hnone
    rcases List.mem_append.1 hnone with hin | hin
    · obtain ⟨hend, hconsumed, hheld, hflight, hended, hidle⟩ := h.atEnd hin
      refine ⟨by rw [hgiven]; exact hend, ?_, ?_, ?_, ?_, by rw [hpoints]; exact hidle⟩
      all_goals rw [hstate]
      · exact hconsumed
      · exact hheld
      · exact hflight
      · exact hended
    · exact nomatch hrefused _ hin

/-- **What was delivered stays right after a close.** -/
theorem delivered_of_closed (hw : Reachable p opened w) (hclosed : w.state.closed = true)
    (h : Delivered m p w) (ht : Taken p w w') : Delivered m p w' := by
  cases ht with
  | @heard i signal l now addition hp hl =>
      exact h.leg now (hear_calls hl) (State.hear_quiet hl).tasks_ne rfl
        (answers_hears w i signal) (fun hj => dialogue_heard_ne hj _ _)
        (fun _ => State.hear_phase hl)
  | @ran i pt now addition hp =>
      have hlt := pointed_reachable hw hp
      have hph : w.state.tasks[i]? = some w.state.tasks[i] := List.getElem?_eq_getElem hlt
      refine h.leg now (leg_calls hph pt) (fun hj => leg_tasks_ne hj pt) rfl rfl (fun _ => rfl) ?_
      intro hidle
      rw [hp] at hidle
      cases hidle
  | @called k now hk =>
      have hmove : w.state.moveOn p = (w.state, [], .done (.error .closed)) := by
        rw [State.moveOn, if_pos hclosed]
      rw [hmove]
      exact h.refused rfl rfl (fun i => dialogue_runReader rfl i) [.error .closed]
        (fun a ha => List.mem_singleton.1 ha) (answers_done ..)
  | @filled k n now hk =>
      have hfill : w.state.claims p n = (w.state, [], .waiting n) := by
        rw [State.claims, State.fill, if_neg (by simp [State.mayClaim, hclosed])]
      rw [hfill]
      exact h.refused rfl rfl (fun i => dialogue_runReader rfl i) [] (by simp)
        ((answers_waiting ..).trans (List.append_nil _).symm)
  | @looked k n now hk =>
      have hlook : w.state.look now.elapsed n = (w.state, [], .done (.error .closed)) := by
        rw [State.look, if_pos hclosed]
      rw [hlook]
      exact h.refused rfl rfl (fun i => dialogue_runReader rfl i) [.error .closed]
        (fun a ha => List.mem_singleton.1 ha) (answers_done ..)
  | abandoned hk => exact h.refused rfl rfl (fun _ => rfl) [] (by simp) (List.append_nil _).symm
  | closed now => exact h.close now

/-- **What was delivered is right in every solo world.** -/
theorem delivered_reachable (hcreate : create m config method = .ok (p, opened))
    (hlinks : OwnLinks m) (hw : SoloReachable p opened w) : Delivered m p w := by
  -- the invariants hold up to a close; from there on nothing is taken back, step by step
  refine hw.of_open hcreate (delivered_of_open hcreate hlinks) ?_ ?_
  · intro w now _ _ hdelivered
    exact hdelivered.close now
  · intro w w' hw hclosed hdelivered htaken
    exact delivered_of_closed hw.reachable hclosed hdelivered htaken

end ResultChunks.Provider.World

namespace ResultChunks.Provider

/-- **A single reader gets every chunk once, in order, with its own data, and then the end.** The
`i`-th handle is that of chunk `i`. It has the extent from the manifest and the batches of the only
payload that the task of chunk `i` fetched, with a link of chunk `i`. The end was returned only if
all chunks were handed out and consumed, no batches are held, no slot is taken and no task is in
flight. -/
theorem delivered_in_order {m : Manifest} {config : FetchConfig} {method : Method} {p : Setup}
    {opened : Move} {w : World} (hcreate : create m config method = .ok (p, opened))
    (hlinks : World.OwnLinks m) (hw : World.SoloReachable p opened w) :
    (handles w.log).map Handle.index = List.range (handles w.log).length
      ∧ (∀ (i : Nat) (h : Handle), (handles w.log)[i]? = some h →
          (∃ c, m.chunks[i]? = some c ∧ h.rowOffset = c.rowOffset ∧ h.rowCount = c.rowCount)
          ∧ ∃ link dl, (dialogue i w.log).fetched = [(link, dl)] ∧ link.chunkIndex = i
            ∧ h.batches = dl.batches)
      ∧ ((.ok none : Answer) ∈ answers w.log →
          (handles w.log).length = m.count
          ∧ (∀ (i : Nat) (d : Descriptor), w.state.store.chunks[i]? = some d →
            d.status = .consumed)
          ∧ w.state.store.holding = 0 ∧ w.state.held = 0 ∧ w.state.inFlight = []) := by
  have hdelivered := World.delivered_reachable hcreate hlinks hw
  refine ⟨?_, ?_, ?_⟩
  · exact indices_eq_range fun hi => (hdelivered.each hi).index
  · intro i h hi
    have hd := hdelivered.each hi
    exact ⟨hd.extent, hd.batches⟩
  · intro hnone
    have hover := hdelivered.atEnd hnone
    have hcount : p.count = m.count := by
      obtain ⟨rfl, -⟩ := create_eq hcreate
      rfl
    refine ⟨hover.given.trans hcount, fun i d hd => (hover.consumed hd).1, ?_, hover.held,
      hover.inFlight⟩
    rw [Store.holding, List.length_eq_zero_iff]
    refine List.filter_eq_nil_iff.2 ?_
    intro d hd
    obtain ⟨i, hi⟩ := List.mem_iff_getElem?.1 hd
    rw [(hover.consumed hi).2]
    exact nofun

namespace Sample

/-- Chunk 1 arrives first. The reader gives up once while chunk 0 is missing, and then reads both
chunks and the end. -/
def readThrough : List Tick :=
  stretch 0 .start 3 ++ stretch 1 .start 3 ++ stretch 1 (.payload (.ok (payload 1))) 1 ++
  advancing dawn ++ [tick (.abandon 0)] ++ stretch 0 (.payload (.ok (payload 0))) 1 ++
  advancing dawn ++ advancing dawn ++ [tick (.call 0)]

/-- The answer is that all chunks were handed out. -/
def isEnd : Answer → Bool
  | .ok none => true
  | _ => false

theorem eq_of_isEnd {a : Answer} (h : isEnd a = true) : a = .ok none := by
  rcases a with e | _ | handle
  · cases h
  · rfl
  · cases h

end Sample

/-- Both chunks are delivered although they arrive in the other order. -/
theorem delivered_in_order_read_through :
    ∃ w, World.SoloReachable (Sample.opened Sample.bothLinks).1
        (Sample.opened Sample.bothLinks).2 w
      ∧ (handles w.log).map Handle.index = [0, 1] ∧ w.state.held = 0
      ∧ w.state.store.holding = 0 ∧ w.state.inFlight = [] := by
  obtain ⟨w, hw, hlen, hnone⟩ : ∃ w,
      World.SoloReachable (Sample.opened Sample.bothLinks).1
          (Sample.opened Sample.bothLinks).2 w
        ∧ (handles w.log).length = 2
        ∧ (answers w.log).any Sample.isEnd = true :=
    World.exists_soloReachable Sample.dawn Sample.readThrough (by decide) (by decide +kernel)
  have hlinks : World.OwnLinks (Sample.manifest Sample.bothLinks) := by
    intro i c l hc hl
    rcases i with _ | _ | i
    · obtain rfl := Option.some.inj hc; obtain rfl := Option.some.inj hl; rfl
    · obtain rfl := Option.some.inj hc; obtain rfl := Option.some.inj hl; rfl
    · cases hc
  obtain ⟨hindices, -, hover⟩ :=
    delivered_in_order (Sample.create_opened Sample.bothLinks) hlinks hw
  have hend : (.ok none : Answer) ∈ answers w.log := by
    obtain ⟨a, ha, hisEnd⟩ := List.any_eq_true.1 hnone
    rw [← Sample.eq_of_isEnd hisEnd]
    exact ha
  obtain ⟨-, -, hholding, hheld, hflight⟩ := hover hend
  exact ⟨w, hw, by rw [hindices, hlen]; rfl, hheld, hholding, hflight⟩

end ResultChunks.Provider
