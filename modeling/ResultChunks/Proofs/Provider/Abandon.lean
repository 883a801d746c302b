import ResultChunks.Proofs.Provider.Prefetch
import ResultChunks.Proofs.Provider.Run

/-!
# A wait that is given up

A reader that waits has consumed the chunk handed out last, and has claimed what may be claimed. If
it gives up and calls again later, the first leg of the new call finds that chunk consumed, and the
second finds no slot free: tasks end meanwhile, but a task that ends gives back a slot only if its
chunk failed, and then no more chunks are claimed. So neither leg does anything, and the new call
looks for the chunk that the old one looked for. No task asks who waits. Hence all goes on as if the
reader had waited all the time.
-/

namespace ResultChunks.Provider

/-- A task hears an answer or runs a leg. -/
def Action.isTask : Action → Bool
  | .hear _ _ | .run _ => true
  | _ => false

namespace State

variable {p : Setup} {s : State}

/-- The chunk handed out last is not consumed twice. -/
theorem releaseCurrent_consumed (hsize : s.store.chunks.length = p.count)
    (h : ∀ {i : Nat} {d : Descriptor}, s.current = i → s.store.chunks[i]? = some d →
      d.status = .consumed) : s.releaseCurrent p = .ok ⟨s, []⟩ := by
  rw [releaseCurrent]
  split
  · rename_i hcur
    rw [Bool.and_eq_true, decide_eq_true_eq, decide_eq_true_eq] at hcur
    obtain ⟨d, hd⟩ := Store.exists_chunk (s := s.store) (i := s.current.toNat) (by omega)
    have hs := h (Int.toNat_of_nonneg hcur.1).symm hd
    rw [releaseChunk, Store.get_eq_ok hd]
    change (if d.status ≠ .downloaded then _ else _) = _
    rw [if_pos (by rw [hs]; decide)]
  · rfl

/-- A call that begins anew does nothing but look for the next chunk. -/
theorem moveOn_anew (hopen : s.closed = false) (hs : s.surfaced = none)
    (hsize : s.store.chunks.length = p.count) (hn : (s.current + 1).toNat < p.count)
    (hconsumed : ∀ {i : Nat} {d : Descriptor}, s.current = i → s.store.chunks[i]? = some d →
      d.status = .consumed) : s.moveOn p = (s, [], .waiting (s.current + 1).toNat) := by
  rw [moveOn, if_neg (by simp [hopen]), hs, releaseCurrent_consumed hsize hconsumed]
  dsimp only
  rw [if_neg (by omega)]

/-- Where all slots are taken, nothing is claimed. -/
theorem fill_full (h : Full p s) : s.fill p = ⟨s, []⟩ := by
  rw [fill, if_neg ?_]
  intro hmay
  simp only [mayClaim, Bool.and_eq_true, Bool.not_eq_true', decide_eq_true_eq] at hmay
  obtain ⟨⟨⟨-, hhalt⟩, hnext⟩, hheld⟩ := hmay
  rcases h hhalt with hall | hfull
  · omega
  · omega

end State

namespace World

variable {p : Setup} {w v : World} {m : Manifest} {config : FetchConfig} {method : Method}
  {opened : Move} {ts : List Tick} {t : Tick}

theorem exec_append (w : World) (ts more : List Tick) :
    w.exec p (ts ++ more) = (w.exec p ts).bind fun v => v.exec p more := by
  induction ts generalizing w with
  | nil => rfl
  | cons t ts ih =>
    rw [List.cons_append, exec, exec]
    cases w.act p t with
    | none => rfl
    | some v => exact ih v

/-! ## No action looks back -/

/-- A world without the record of its past states. -/
def present (w : World) : World := { w with past := [] }

theorem present_runReader (w : World) (now : Moment) (k : Nat) (wait : Nat → Reader)
    (x : State × List Effect × Progress) :
    (w.present.runReader now k wait x).present = (w.runReader now k wait x).present := by
  obtain ⟨s, effects, _ | _⟩ := x
  · rfl
  · rfl

/-- **What an action does depends on the present.** -/
theorem act_present (w : World) (t : Tick) :
    (w.present.act p t).map present = (w.act p t).map present := by
  obtain ⟨now, addition, action⟩ := t
  cases action with
  | hear i signal =>
    dsimp only [act, present]
    cases w.points i with
    | none => cases w.state.hear p addition i signal <;> rfl
    | some pt => rfl
  | run i =>
    dsimp only [act, present]
    cases w.points i <;> rfl
  | call k =>
    dsimp only [act]
    rw [show w.present.readers = w.readers from rfl, show w.present.state = w.state from rfl]
    cases w.readers k with
    | none => exact congrArg some (present_runReader ..)
    | some reader => rfl
  | fill k =>
    dsimp only [act]
    rw [show w.present.readers = w.readers from rfl, show w.present.state = w.state from rfl]
    split
    · exact congrArg some (present_runReader ..)
    · rfl
  | look k =>
    dsimp only [act]
    rw [show w.present.readers = w.readers from rfl, show w.present.state = w.state from rfl]
    split
    · exact congrArg some (present_runReader ..)
    · rfl
  | abandon k =>
    dsimp only [act]
    rw [show w.present.readers = w.readers from rfl]
    split <;> rfl
  | close => rfl

theorem exec_present (h : w.present = v.present) (ts : List Tick) :
    (w.exec p ts).map present = (v.exec p ts).map present := by
  induction ts generalizing w v with
  | nil => exact congrArg some h
  | cons t ts ih =>
    have hact : (w.act p t).map present = (v.act p t).map present := by
      rw [← act_present, h, act_present]
    rw [exec, exec]
    cases hw : w.act p t with
    | none =>
      rw [hw] at hact
      rw [Option.map_eq_none_iff.1 hact.symm]
    | some w' =>
      rw [hw] at hact
      obtain ⟨v', hv, hsame⟩ := Option.map_eq_some_iff.1 hact.symm
      rw [hv]
      exact ih hsame.symm

/-! ## No task asks who waits -/

/-- A world with other readers. -/
def withReaders (w : World) (readers : Nat → Option Reader) : World := { w with readers }

theorem act_withReaders (ht : t.action.isTask = true) (w : World)
    (readers : Nat → Option Reader) :
    (w.withReaders readers).act p t = (w.act p t).map fun v => v.withReaders readers := by
  obtain ⟨now, addition, action⟩ := t
  cases action with
  | hear i signal =>
    dsimp only [act, withReaders]
    cases w.points i with
    | none => cases w.state.hear p addition i signal <;> rfl
    | some pt => rfl
  | run i =>
    dsimp only [act, withReaders]
    rw [Option.map_map]
    rfl
  | call k | fill k | look k | abandon k | close => cases ht

theorem exec_withReaders (hts : ts.all (fun t => t.action.isTask) = true) (w : World)
    (readers : Nat → Option Reader) :
    (w.withReaders readers).exec p ts = (w.exec p ts).map fun v => v.withReaders readers := by
  induction ts generalizing w with
  | nil => rfl
  | cons t ts ih =>
    rw [List.all_cons, Bool.and_eq_true] at hts
    rw [exec, exec, act_withReaders hts.1]
    cases w.act p t with
    | none => rfl
    | some v => exact ih hts.2 v

/-- A leg of a task leaves the readers alone, and the provider as open as it was. -/
theorem act_task (ht : t.action.isTask = true) (h : w.act p t = some v) :
    v.readers = w.readers ∧ v.state.closed = w.state.closed := by
  obtain ⟨now, addition, action⟩ := t
  cases action with
  | hear i signal =>
    rw [act] at h
    dsimp only at h
    split at h
    · rename_i l hp hl
      obtain rfl := Option.some.inj h
      exact ⟨rfl, (State.hear_quiet hl).closed⟩
    · cases h
  | run i =>
    obtain ⟨pt, hp, rfl⟩ := Option.map_eq_some_iff.1 h
    exact ⟨rfl, leg_closed ..⟩
  | call k | fill k | look k | abandon k | close => cases ht

/-- So do all of them, and the world they lead to is reachable for the same reader. -/
theorem exec_task (hts : ts.all (fun t => t.action.isTask) = true) (hw : SoloReachable p opened w)
    (hsolo : w.Solo) (h : w.exec p ts = some v) :
    SoloReachable p opened v ∧ v.readers = w.readers ∧ v.state.closed = w.state.closed := by
  induction ts generalizing w with
  | nil =>
    obtain rfl := Option.some.inj h
    exact ⟨hw, rfl, rfl⟩
  | cons t ts ih =>
    obtain ⟨u, hact, hrest⟩ := exec_cons h
    rw [List.all_cons, Bool.and_eq_true] at hts
    obtain ⟨hreaders, hclosed⟩ := act_task hts.1 hact
    have hsolo' : u.Solo := by
      rw [Solo, hreaders]
      exact hsolo
    obtain ⟨hv, hreaders', hclosed'⟩ :=
      ih hts.2 (hw.trans (.single ⟨⟨t, hact⟩, hsolo'⟩)) hsolo' hrest
    exact ⟨hv, hreaders'.trans hreaders, hclosed'.trans hclosed⟩

/-! ## Calling again -/

/-- While a reader waits, the first leg of a call would only lead to the same chunk. -/
theorem moveOn_of_waiting (hcreate : create m config method = .ok (p, opened))
    (hw : SoloReachable p opened w) (hopen : w.state.closed = false) {r n : Nat}
    (hr : w.readers r = some (.look n)) : w.state.moveOn p = (w.state, [], .waiting n) := by
  have hsound := sound_reachable hcreate hw.reachable hopen
  have hreads := (reads_reachable hcreate hw).2 hopen
  obtain ⟨rfl, -⟩ := hreads.stage_of_looking hr
  obtain ⟨-, hlt, hs, hcurrent, hall⟩ := hreads.waits hr
  have hnext : (w.state.current + 1).toNat = (handles w.log).length := by omega
  rw [State.moveOn_anew hopen hs hsound.size (by omega) (fun hi hd => hall (by omega) hd), hnext]

/-- And the second leg would claim nothing. -/
theorem claims_of_waiting (hcreate : create m config method = .ok (p, opened))
    (hw : SoloReachable p opened w) (hopen : w.state.closed = false) {r n : Nat}
    (hr : w.readers r = some (.look n)) :
    w.state.claims p n = (w.state, [], .waiting n) := by
  have hrests := (reads_reachable hcreate hw).1.rests hr
  rw [State.claims, State.fill_full ((supplied_reachable hcreate hw hopen).full hrests)]

/-- **A reader that gave up and calls again waits as if it had not given up.** -/
theorem resumes (hcreate : create m config method = .ok (p, opened))
    (hw : SoloReachable p opened w) (hopen : w.state.closed = false) {r n : Nat}
    (hr : w.readers r = some (.look n)) (now now' : Moment) (addition addition' : Duration) :
    ((w.withReaders (Function.update w.readers r none)).exec p
      [⟨now, addition, .call r⟩, ⟨now', addition', .fill r⟩]).map present = some w.present := by
  generalize hbefore : w.withReaders (Function.update w.readers r none) = v
  have hstate : v.state = w.state := by rw [← hbefore]; rfl
  have hcall : v.act p ⟨now, addition, .call r⟩ =
      some (v.runReader now r .fill (w.state, [], .waiting n)) := by
    have hidle : v.readers r = none := by rw [← hbefore]; exact Function.update_self ..
    rw [act_call hidle, hstate, moveOn_of_waiting hcreate hw hopen hr]
  have hclaim : (v.runReader now r .fill (w.state, [], .waiting n)).act p
      ⟨now', addition', .fill r⟩ =
        some ((v.runReader now r .fill (w.state, [], .waiting n)).runReader now' r .look
          (w.state, [], .waiting n)) := by
    have hfills : (v.runReader now r .fill (w.state, [], .waiting n)).readers r =
        some (.fill n) := Function.update_self ..
    rw [act_fill hfills]
    exact congrArg (fun x => some (runReader _ now' r .look x))
      (claims_of_waiting hcreate hw hopen hr)
  rw [exec, hcall, Option.bind_some, exec, hclaim, Option.bind_some, exec, Option.map_some]
  -- the reader is back where it was, and the two legs left no trace
  have hreaders : Function.update (Function.update (Function.update w.readers r none) r
      (some (.fill n))) r (some (.look n)) = w.readers := by
    rw [Function.update_idem, Function.update_idem, ← hr, Function.update_eq_self]
  subst hbefore
  change some (World.mk w.state w.points (Function.update (Function.update (Function.update
    w.readers r none) r _) r _) (w.log ++ [] ++ []) []) = _
  rw [hreaders, List.append_nil, List.append_nil]
  rfl

/-- **Giving a wait up costs nothing.** A reader that waits, gives up while tasks run on, and calls
again comes to the same world as one that waits all the time, and so does everything that happens
later. -/
theorem abandon_undone (hcreate : create m config method = .ok (p, opened))
    (hw : SoloReachable p opened w) (hopen : w.state.closed = false) {r n : Nat}
    (hr : w.readers r = some (.look n)) (hts : ts.all (fun t => t.action.isTask) = true)
    (now now₁ now₂ : Moment) (addition addition₁ addition₂ : Duration) (more : List Tick) :
    (w.exec p (⟨now, addition, .abandon r⟩ :: ts ++
        ⟨now₁, addition₁, .call r⟩ :: ⟨now₂, addition₂, .fill r⟩ :: more)).map present =
      (w.exec p (ts ++ more)).map present := by
  have hgiveUp : w.act p ⟨now, addition, .abandon r⟩ =
      some (w.withReaders (Function.update w.readers r none)) := act_abandon hr
  rw [List.cons_append, exec, hgiveUp, Option.bind_some, exec_append, exec_withReaders hts,
    exec_append]
  cases hrun : w.exec p ts with
  | none => rfl
  | some v =>
    obtain ⟨hv, hreaders, hclosed⟩ := exec_task hts hw (reads_reachable hcreate hw).1 hrun
    have hagain := resumes hcreate hv (hclosed.trans hopen) ((congrFun hreaders r).trans hr) now₁
      now₂ addition₁ addition₂
    obtain ⟨u, hu, hsame⟩ := Option.map_eq_some_iff.1 hagain
    rw [hreaders] at hu
    rw [Option.map_some, Option.bind_some, Option.bind_some,
      show ∀ a b : Tick, a :: b :: more = [a, b] ++ more from fun _ _ => rfl, exec_append, hu]
    exact exec_present hsame more

end World

end ResultChunks.Provider
