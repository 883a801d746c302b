import ResultChunks.Proofs.Provider.Record
import ResultChunks.Rehearsal.World

/-!
# A rehearsal is a run

A rehearsal lets the actions in its queue happen one after the other, a task all its legs in a row,
and moves its clock when nothing is left to do. The worlds of a provider know no such order. Here a
rehearsal is shown to keep within them: whatever is done with it, its provider goes from state to
state by actions of a world. So what holds of all reachable worlds holds of every rehearsal.

A world stands for a rehearsal if it has the same state, no task is in the middle of a stretch, and
whoever waits in the rehearsal is a reader who looks for the same chunk. The consumer is the first
reader, and the jobs are the others in order.
-/

namespace ResultChunks

namespace Provider

/-- The chunk that is waited for. -/
def Progress.waits : Progress → Option Nat
  | .done _ => none
  | .waiting index => some index

namespace World

variable {p : Setup} {u : World} {k : Nat}

/-- A world comes to a state with these readers, and all tasks stand where they stood. -/
def ComesTo (p : Setup) (u : World) (s : State) (readers : Nat → Option Reader) : Prop :=
  ∃ v, Relation.ReflTransGen (Step p) u v ∧ v.state = s ∧ v.points = u.points ∧ v.readers = readers

/-- A task runs the legs of its stretch that are left. -/
theorem exists_proceed (now : Moment) (addition : Duration) {i : Nat} {pt : Point}
    (hp : u.points i = some pt) : ∃ v, Relation.ReflTransGen (Step p) u v
      ∧ v.state = (u.state.proceed p now addition i pt).state
      ∧ v.points = Function.update u.points i none ∧ v.readers = u.readers := by
  induction hn : pt.rank using Nat.strongRecOn generalizing u pt with
  | ind n ih =>
      have hrun : Step p u (u.runLeg now i (u.state.leg p now addition i pt)) :=
        ⟨⟨now, addition, .run i⟩, act_run hp⟩
      rw [State.proceed_eq, State.finishFrom]
      cases hl : (u.state.leg p now addition i pt).next with
      | none =>
          refine ⟨_, .single hrun, rfl, ?_, rfl⟩
          rw [points_runLeg, hl]
      | some q =>
          have hlater : (u.runLeg now i (u.state.leg p now addition i pt)).points i = some q := by
            rw [points_runLeg, hl, Function.update_self]
          obtain ⟨v, hv, hstate, hpoints, hreaders⟩ :=
            ih q.rank (hn ▸ State.leg_rank hl) hlater rfl
          refine ⟨v, .head hrun hv, hstate, ?_, hreaders⟩
          rw [hpoints, points_runLeg, Function.update_idem]

/-- **A stretch is a run**: the task hears the signal, if it waits for it, and runs its legs. -/
theorem comesTo_stretch (now : Moment) (addition : Duration) {i : Nat} (signal : Signal)
    (hp : u.points i = none) :
    ComesTo p u (u.state.stretch p now addition i signal).state u.readers := by
  rw [State.stretch_eq]
  cases hl : u.state.hear p addition i signal with
  | none => exact ⟨u, .refl, rfl, rfl, rfl⟩
  | some l =>
      have hhear : Step p u ((u.hears i signal).runLeg now i l) :=
        ⟨⟨now, addition, .hear i signal⟩, act_hear hp hl⟩
      dsimp only
      rw [State.finishFrom]
      cases hn : l.next with
      | none =>
          refine ⟨_, .single hhear, rfl, ?_, rfl⟩
          rw [points_runLeg, hn]
          exact Function.update_eq_self_iff.2 hp.symm
      | some q =>
          have hlater : ((u.hears i signal).runLeg now i l).points i = some q := by
            rw [points_runLeg, hn, Function.update_self]
          obtain ⟨v, hv, hstate, hpoints, hreaders⟩ :=
            exists_proceed (p := p) now addition hlater
          refine ⟨v, .head hhear hv, hstate, ?_, hreaders⟩
          rw [hpoints, points_runLeg, Function.update_idem]
          exact Function.update_eq_self_iff.2 hp.symm

/-- A look waits for no other chunk. -/
theorem waits_look {s : State} {waited : Duration} {index n : Nat}
    (h : (s.look waited index).2.2.waits = some n) : n = index := by
  unfold State.look at h
  split at h
  · cases h
  · split at h
    · cases h
    · split at h
      · cases h
      · cases h
      · cases h
      · cases h
      all_goals exact (Option.some.inj h).symm

/-- A look is an action, and a reader whose chunk is not there looks again. -/
theorem comesTo_look (waited : Duration) {n : Nat} (hk : u.readers k = some (.look n)) :
    ComesTo p u (u.state.look waited n).1
      (Function.update u.readers k ((u.state.look waited n).2.2.waits.map .look)) := by
  have hlook : Step p u (u.runReader ⟨.ofSecs 0, waited⟩ k .look (u.state.look waited n)) :=
    ⟨⟨⟨.ofSecs 0, waited⟩, .zero, .look k⟩, act_look hk⟩
  refine ⟨_, .single hlook, ?_, ?_, ?_⟩
  · exact state_runReader ..
  · exact points_runReader ..
  · rcases u.state.look waited n with ⟨s, effects, answer | index⟩
    · rfl
    · rfl

/-- A reader whose chunk is not there may give up. -/
theorem step_abandon {n : Nat} (hk : u.readers k = some (.look n)) :
    Step p u { u with readers := Function.update u.readers k none } :=
  ⟨⟨⟨.ofSecs 0, .zero⟩, .zero, .abandon k⟩, act_abandon hk⟩

/-- **A call of `advance` is a run**: its legs in a row. -/
theorem comesTo_advance (hk : u.readers k = none) : ComesTo p u (u.state.advance p).1
    (Function.update u.readers k ((u.state.advance p).2.2.waits.map .look)) := by
  let now : Moment := ⟨.ofSecs 0, .zero⟩
  have hcall : Step p u (u.runReader now k .fill (u.state.moveOn p)) :=
    ⟨⟨now, .zero, .call k⟩, act_call hk⟩
  rw [State.advance_eq]
  rcases hm : u.state.moveOn p with ⟨s, effects, answer | next⟩
  · rw [hm] at hcall
    exact ⟨_, .single hcall, rfl, rfl, rfl⟩
  · rw [hm] at hcall
    -- the call goes on to claim, and then looks
    generalize hv : u.runReader now k .fill (s, effects, .waiting next) = v at hcall
    have hfill : v.readers k = some (.fill next) := by
      rw [← hv]
      exact Function.update_self ..
    have hclaim : Step p v (v.runReader now k .look (v.state.claims p next)) :=
      ⟨⟨now, .zero, .fill k⟩, act_fill hfill⟩
    have hlook : (v.runReader now k .look (v.state.claims p next)).readers k = some (.look next) :=
      Function.update_self ..
    obtain ⟨w, hw, hstate, hpoints, hreaders⟩ := comesTo_look (p := p) .zero hlook
    refine ⟨w, .head hcall (.head hclaim hw), ?_, ?_, ?_⟩
    · rw [hstate, ← hv]
      rfl
    · rw [hpoints, ← hv]
      rfl
    · rw [hreaders, ← hv]
      change Function.update (Function.update (Function.update u.readers k _) k _) k _ = _
      rw [Function.update_idem, Function.update_idem]
      rfl

end World

end Provider

namespace Rehearsal

open Provider

/-- The chunk that a job waits for. -/
def JobState.waits : JobState → Option Nat
  | .ready => none
  | .waiting index _ _ => some index

namespace World

variable {w w' w'' : World} {c c' c'' : Option Nat} {u v : Provider.World}

/-- The chunk that a job waits for, if there is such a job. -/
def waitsFor (w : World) (number : Nat) : Option Nat :=
  (w.jobs[number]?).bind fun j => j.state.waits

/-- A world stands for a rehearsal whose consumer waits for a chunk or does nothing. -/
structure Stands (w : World) (c : Option Nat) (u : Provider.World) : Prop where
  state : u.state = w.state
  idle : ∀ i, u.points i = none
  consumer : u.readers 0 = c.map .look
  jobs : ∀ number, u.readers (number + 1) = (w.waitsFor number).map .look

/-- Whatever world stands for a rehearsal, it runs to one that stands for a later rehearsal. -/
structure Runs (w : World) (c : Option Nat) (w' : World) (c' : Option Nat) : Prop where
  setup : w'.setup = w.setup
  run : ∀ {u : Provider.World}, w.Stands c u →
    ∃ v, Relation.ReflTransGen (Provider.World.Step w.setup) u v ∧ w'.Stands c' v

theorem Runs.trans (h : Runs w c w' c') (h' : Runs w' c' w'' c'') : Runs w c w'' c'' where
  setup := h'.setup.trans h.setup
  run := by
    intro u hu
    obtain ⟨v, hv, hstands⟩ := h.run hu
    obtain ⟨v', hv', hstands'⟩ := h'.run hstands
    rw [h.setup] at hv'
    exact ⟨v', hv.trans hv', hstands'⟩

/-! ## What leaves the provider alone -/

/-- The provider and the jobs are as they were. -/
structure Same (w w' : World) : Prop where
  setup : w'.setup = w.setup
  state : w'.state = w.state
  jobs : w'.jobs = w.jobs

theorem Same.refl (w : World) : Same w w := ⟨rfl, rfl, rfl⟩

theorem Same.trans (h : Same w w') (h' : Same w' w'') : Same w w'' :=
  ⟨h'.setup.trans h.setup, h'.state.trans h.state, h'.jobs.trans h.jobs⟩

/-- The same, after a change of what the provider and the jobs are not part of. -/
theorem Same.after (h : Same w' w'') (hsetup : w'.setup = w.setup) (hstate : w'.state = w.state)
    (hjobs : w'.jobs = w.jobs) : Same w w'' := .trans ⟨hsetup, hstate, hjobs⟩ h

theorem Same.waitsFor (h : Same w w') : w'.waitsFor = w.waitsFor := by
  unfold World.waitsFor
  rw [h.jobs]

theorem Same.stands (h : Same w w') (hu : w.Stands c u) : w'.Stands c u where
  state := hu.state.trans h.state.symm
  idle := hu.idle
  consumer := hu.consumer
  jobs := fun number => by rw [h.waitsFor]; exact hu.jobs number

/-- What leaves the provider alone takes no action. -/
theorem Same.runs (h : Same w w') (c : Option Nat) : Runs w c w' c where
  setup := h.setup
  run := fun hu => ⟨_, .refl, h.stands hu⟩

theorem Runs.refl (w : World) (c : Option Nat) : Runs w c w c := (Same.refl w).runs c

theorem Runs.same (h : Runs w c w' c') (hsame : Same w' w'') : Runs w c w'' c' :=
  h.trans (hsame.runs c')

theorem same_note (w : World) (entries : List Log.Entry) : Same w (w.note entries) := ⟨rfl, rfl, rfl⟩

theorem same_mention (w : World) (ms : List Mention) : Same w (w.mention ms) := ⟨rfl, rfl, rfl⟩

theorem same_later (w : World) (delay : Nat) (action : Action) : Same w (w.later delay action) := by
  unfold later
  split <;> exact ⟨rfl, rfl, rfl⟩

theorem same_takeReply (w : World) (chunk : Nat) (r : Reply) : Same w (w.takeReply chunk r) := by
  unfold takeReply
  dsimp only
  split <;> exact (same_later ..).after rfl rfl rfl

theorem same_wake (w : World) (x : Waiter) : Same w (w.wake x) := by
  cases x <;> exact ⟨rfl, rfl, rfl⟩

theorem same_wakeAll (waiters : List Waiter) (w : World) : Same w (waiters.foldl wake w) := by
  induction waiters generalizing w with
  | nil => exact .refl w
  | cons x waiters ih => exact (same_wake w x).trans (ih _)

/-- **What a stretch asks for leaves the provider alone.** -/
theorem same_perform (w : World) (effect : Effect) : Same w (w.perform effect) := by
  cases effect with
  | spawn | note => exact ⟨rfl, rfl, rfl⟩
  | askLinks => exact same_takeReply ..
  | download => exact (same_later ..).after rfl rfl rfl
  | sleep => exact same_later ..
  | report event =>
      unfold perform
      dsimp only
      split
      · exact (same_mention ..).trans (same_note ..)
      · exact same_mention ..
  | wake => exact (same_wakeAll w.waiters { w with waiters := [] }).after rfl rfl rfl

theorem same_performAll (effects : List Effect) (w : World) : Same w (w.performAll effects) := by
  unfold performAll
  induction effects generalizing w with
  | nil => exact .refl w
  | cons e effects ih => exact (same_perform w e).trans (ih _)

theorem same_moveTo (w : World) (time : Nat) : Same w (w.moveTo time) := ⟨rfl, rfl, rfl⟩

/-! ## What takes actions -/

/-- A stretch in which all readers stay as they are. -/
theorem runs_takeMove {m : Move} (hrun : ∀ {u : Provider.World}, u.state = w.state →
      (∀ i, u.points i = none) → u.ComesTo w.setup m.state u.readers) (c : Option Nat) :
    Runs w c (w.takeMove m) c where
  setup := (same_performAll m.effects { w with state := m.state }).setup
  run := by
    intro u hu
    obtain ⟨v, hv, hstate, hpoints, hreaders⟩ := hrun hu.state hu.idle
    refine ⟨v, hv, (same_performAll m.effects _).stands ⟨hstate, ?_, ?_, fun number => ?_⟩⟩
    · rw [hpoints]; exact hu.idle
    · rw [hreaders]; exact hu.consumer
    · rw [hreaders]; exact hu.jobs number

theorem runs_stretch (w : World) (now : Moment) (i : Nat) (signal : Signal) (c : Option Nat) :
    Runs w c (w.takeMove (w.state.stretch w.setup now .zero i signal)) c := by
  refine runs_takeMove (fun {u} hs hidle => ?_) c
  rw [← hs]
  exact Provider.World.comesTo_stretch now .zero signal (hidle i)

theorem runs_close (w : World) (c : Option Nat) : Runs w c w.close c := by
  refine runs_takeMove (fun {u} hs _ => ?_) c
  rw [← hs]
  exact ⟨_, .single ⟨⟨⟨.ofSecs 0, .zero⟩, .zero, .close⟩, rfl⟩, rfl, rfl, rfl⟩

/-- The consumer's legs, after which it waits or not. -/
theorem runs_consumer {r : State × List Effect × Progress}
    (hrun : ∀ {u : Provider.World}, u.state = w.state → u.readers 0 = c.map .look →
      u.ComesTo w.setup r.1 (Function.update u.readers 0 (r.2.2.waits.map .look))) :
    Runs w c ({ w with state := r.1 }.performAll r.2.1) r.2.2.waits where
  setup := (same_performAll r.2.1 { w with state := r.1 }).setup
  run := by
    intro u hu
    obtain ⟨v, hv, hstate, hpoints, hreaders⟩ := hrun hu.state hu.consumer
    refine ⟨v, hv, (same_performAll r.2.1 _).stands ⟨hstate, ?_, ?_, fun number => ?_⟩⟩
    · rw [hpoints]; exact hu.idle
    · rw [hreaders, Function.update_self]
    · rw [hreaders, Function.update_of_ne (Nat.succ_ne_zero number)]
      exact hu.jobs number

/-- The consumer gives up waiting. -/
theorem runs_giveUp (w : World) (index : Nat) : Runs w (some index) w none where
  setup := rfl
  run := by
    intro u hu
    refine ⟨_, .single (Provider.World.step_abandon hu.consumer), hu.state, hu.idle, ?_,
      fun number => ?_⟩
    · exact Function.update_self 0 (none : Option Reader) u.readers
    · change Function.update u.readers 0 none (number + 1) = _
      rw [Function.update_of_ne (Nat.succ_ne_zero number)]
      exact hu.jobs number

/-! ## Jobs -/

theorem takeJobProgress_setup (w : World) (number began : Nat) (j : Job) (progress : Progress) :
    (w.takeJobProgress number began j progress).setup = w.setup := by
  unfold takeJobProgress
  cases progress with
  | done result => dsimp only; split <;> rfl
  | waiting index => rfl

theorem takeJobProgress_state (w : World) (number began : Nat) (j : Job) (progress : Progress) :
    (w.takeJobProgress number began j progress).state = w.state := by
  unfold takeJobProgress
  cases progress with
  | done result => dsimp only; split <;> rfl
  | waiting index => rfl

theorem waitsFor_setJob (w : World) {number : Nat} (h : number < w.jobs.length) (j : Job) (n : Nat) :
    (w.setJob number j).waitsFor n = if n = number then j.state.waits else w.waitsFor n := by
  unfold waitsFor setJob
  by_cases hn : n = number
  · subst hn
    rw [if_pos rfl, List.getElem?_set_self h]
    rfl
  · rw [if_neg hn, List.getElem?_set_ne (Ne.symm hn)]

theorem waitsFor_takeJobProgress (w : World) {number : Nat} (h : number < w.jobs.length)
    (began : Nat) (j : Job) (progress : Progress) (n : Nat) :
    (w.takeJobProgress number began j progress).waitsFor n =
      if n = number then progress.waits else w.waitsFor n := by
  cases progress with
  | done result =>
      have hset := waitsFor_setJob w h
        { j with remaining := j.remaining - 1, state := .ready, results := result :: j.results } n
      unfold takeJobProgress
      dsimp only
      split
      · exact hset
      · exact hset
  | waiting index => exact waitsFor_setJob w h _ n

/-- The legs of a job, after which it waits or not. -/
theorem runs_takeJobProgress {number : Nat} {j : Job} (hj : w.jobs[number]? = some j)
    {r : State × List Effect × Progress} (hrun : ∀ {u : Provider.World}, u.state = w.state →
      u.readers (number + 1) = j.state.waits.map .look → u.ComesTo w.setup r.1
        (Function.update u.readers (number + 1) (r.2.2.waits.map .look)))
    (began : Nat) (c : Option Nat) :
    Runs w c (({ w with state := r.1 }.performAll r.2.1).takeJobProgress number began j r.2.2) c := by
  have hsame := same_performAll r.2.1 { w with state := r.1 }
  have hlt : number < ({ w with state := r.1 }.performAll r.2.1).jobs.length := by
    rw [hsame.jobs]
    exact (List.getElem?_eq_some_iff.1 hj).1
  constructor
  · rw [takeJobProgress_setup]
    exact hsame.setup
  · intro u hu
    have hreader : u.readers (number + 1) = j.state.waits.map .look := by
      rw [hu.jobs, waitsFor, hj]
      rfl
    obtain ⟨v, hv, hstate, hpoints, hreaders⟩ := hrun hu.state hreader
    refine ⟨v, hv, ?_, ?_, ?_, fun n => ?_⟩
    · rw [takeJobProgress_state]
      exact hstate.trans hsame.state.symm
    · rw [hpoints]; exact hu.idle
    · rw [hreaders, Function.update_of_ne (Nat.succ_ne_zero number).symm]
      exact hu.consumer
    · rw [hreaders, waitsFor_takeJobProgress _ hlt]
      by_cases hn : n = number
      · subst hn
        rw [if_pos rfl, Function.update_self]
      · rw [if_neg hn, Function.update_of_ne (fun h => hn (Nat.succ.inj h)), hsame.waitsFor]
        exact hu.jobs n

/-- **A job that goes on advances, or looks again.** -/
theorem runs_runJob (w : World) (number : Nat) (c : Option Nat) :
    Runs w c (w.runJob number) c := by
  unfold runJob
  cases hj : w.jobs[number]? with
  | none => exact .refl w c
  | some j =>
      dsimp only
      split
      · exact .refl w c
      · cases hstate : j.state with
        | ready =>
            refine runs_takeJobProgress hj (fun {u} hs hreader => ?_) _ c
            rw [hstate] at hreader
            rw [← hs]
            exact Provider.World.comesTo_advance hreader
        | waiting index began looked =>
            refine runs_takeJobProgress hj (fun {u} hs hreader => ?_) _ c
            rw [hstate] at hreader
            rw [← hs]
            exact Provider.World.comesTo_look _ hreader

theorem runs_runJobPatience (w : World) (number since : Nat) (c : Option Nat) :
    Runs w c (w.runJobPatience number since) c := by
  unfold runJobPatience
  split
  · split
    · exact .refl w c
    · rename_i index began _ _ _
      let v := w.perform (State.stillWaiting index (w.since began))
      have hleave : Same w { v with waiters := v.waiters.filter fun x => x ≠ .job number } :=
        (same_perform w _).trans ⟨rfl, rfl, rfl⟩
      exact (hleave.runs c).trans (runs_runJob _ number c)
  · exact .refl w c

/-! ## The queue and the clock -/

/-- **Each action in the queue is a run.** -/
theorem runs_act (w : World) (a : Action) (c : Option Nat) : Runs w c (w.act a) c := by
  unfold act
  cases a with
  | job number => exact runs_runJob w number c
  | jobPatience number since => exact runs_runJobPatience w number since c
  | start chunk =>
      dsimp only
      split
      · exact .refl w c
      · have hbegan : Same w { w with began := (chunk, w.now) :: w.began } := ⟨rfl, rfl, rfl⟩
        exact (hbegan.runs c).trans (runs_stretch _ _ chunk .start c)
  | call chunk call =>
      dsimp only
      split
      · exact .refl w c
      · exact (same_takeReply ..).runs c
  | links chunk result =>
      dsimp only
      split
      · exact .refl w c
      · exact runs_stretch w _ chunk (.links result) c
  | payload chunk result =>
      dsimp only
      split
      · exact .refl w c
      · exact runs_stretch w _ chunk (.payload result) c
  | waitEnded chunk =>
      dsimp only
      split
      · exact .refl w c
      · exact runs_stretch w _ chunk .waitOver c

theorem runs_settle (fuel : Nat) (w : World) (c : Option Nat) : Runs w c (w.settle fuel) c := by
  induction fuel generalizing w with
  | zero => exact .refl w c
  | succ fuel ih =>
      unfold settle
      cases w.queue with
      | nil => exact .refl w c
      | cons a rest =>
          have htake : Same w { w with queue := rest } := ⟨rfl, rfl, rfl⟩
          exact ((htake.runs c).trans (runs_act _ a c)).trans (ih _)

theorem runs_passUntil (target fuel : Nat) (w : World) (c : Option Nat) :
    Runs w c (passUntil target fuel w) c := by
  induction fuel generalizing w with
  | zero => exact .refl w c
  | succ fuel ih =>
      have hsettle := runs_settle (fuel + 1) w c
      unfold passUntil
      dsimp only
      cases (w.settle (fuel + 1)).nextTime with
      | none => exact hsettle.trans ((same_moveTo ..).runs c)
      | some t =>
          dsimp only
          split
          · exact (hsettle.trans ((same_moveTo ..).runs c)).trans (ih _)
          · exact hsettle.trans ((same_moveTo ..).runs c)

/-! ## The consumer -/

/-- What the consumer still waits for after a look. -/
def stillWaits (index : Nat) : Option Advanced → Option Nat
  | some _ => none
  | none => some index

theorem runs_lookAgain (w : World) (index began : Nat) :
    Runs w (some index) (w.lookAgain index began).1
      (stillWaits index (w.lookAgain index began).2) := by
  have hwoken : Same w { w with consumerWoken := false } := ⟨rfl, rfl, rfl⟩
  have hlook := runs_consumer (w := { w with consumerWoken := false }) (c := some index)
    (r := w.state.look (w.since began) index) (fun {u} hs hreader => by
      rw [← show u.state = w.state from hs]
      exact Provider.World.comesTo_look _ hreader)
  unfold lookAgain
  rcases hr : w.state.look (w.since began) index with ⟨s, effects, result | n⟩
  · rw [hr] at hlook
    exact (hwoken.runs _).trans hlook
  · have hwaits : (w.state.look (w.since began) index).2.2.waits = some n := by rw [hr]; rfl
    have hn : n = index := Provider.World.waits_look hwaits
    rw [hr, hn] at hlook
    exact ((hwoken.runs _).trans hlook).same ⟨rfl, rfl, rfl⟩

/-- The clock moves on, and the consumer looks again or goes on waiting. -/
theorem runs_pass {index began fuel : Nat} {limit : Option Nat}
    (hawait : ∀ looked w, Runs w (some index) (await index limit began fuel looked w).1 none)
    (looked first patience : Nat) (w : World) :
    Runs w (some index) (await.pass index limit began fuel looked first patience w).1 none := by
  have hmoved := (same_moveTo w first).runs (some index)
  unfold await.pass
  dsimp only
  split
  · have hnote := (same_perform (w.moveTo first)
      (State.stillWaiting index ((w.moveTo first).since began))).runs (some index)
    have hagain := hnote.trans (runs_lookAgain _ index began)
    split
    · rename_i v result heq
      rw [heq] at hagain
      exact hmoved.trans hagain
    · rename_i v heq
      rw [heq] at hagain
      exact (hmoved.trans hagain).trans (hawait ..)
  · exact hmoved.trans (hawait ..)

/-- **A wait is a run**, at whose end the consumer waits no more. -/
theorem runs_await (index : Nat) (limit : Option Nat) (began fuel looked : Nat) (w : World) :
    Runs w (some index) (await index limit began fuel looked w).1 none := by
  induction fuel generalizing looked w with
  | zero =>
      rw [await]
      exact runs_giveUp w index
  | succ fuel ih =>
      have hsettle := runs_settle (fuel + 1) w (some index)
      have hlook := hsettle.trans (runs_lookAgain _ index began)
      rw [await]
      dsimp only
      -- it was woken, its time is up, or the clock moves on to whatever comes first
      split
      · split
        · rename_i v result heq
          rw [heq] at hlook
          exact hlook
        · rename_i v heq
          rw [heq] at hlook
          exact hlook.trans (ih ..)
      · split
        · split
          · rename_i l _
            have hleave : Same (w.settle (fuel + 1)) { (w.settle (fuel + 1)).moveTo l with
                waiters := ((w.settle (fuel + 1)).moveTo l).waiters.filter
                  fun x => x ≠ .consumer } := ⟨rfl, rfl, rfl⟩
            exact (hsettle.trans (hleave.runs _)).trans (runs_giveUp _ index)
          · exact hsettle.trans (runs_pass ih ..)
        · exact hsettle.trans (runs_pass ih ..)

/-- **`advance` is a run.** -/
theorem runs_advance (w : World) (timeout : Option Nat) :
    Runs w none (w.advance timeout).1 none := by
  have hadvance := runs_consumer (w := w) (c := none) (r := w.state.advance w.setup)
    (fun {u} hs hreader => by
      rw [← hs]
      exact Provider.World.comesTo_advance hreader)
  unfold advance
  rcases hr : w.state.advance w.setup with ⟨s, effects, result | index⟩
  · rw [hr] at hadvance
    exact hadvance
  · rw [hr] at hadvance
    dsimp only
    split
    · exact hadvance.trans (runs_giveUp _ index)
    · refine (hadvance.same ?_).trans (runs_await ..)
      exact ⟨rfl, rfl, rfl⟩

theorem runs_sleep (w : World) (ms : Nat) (c : Option Nat) : Runs w c (w.sleep ms) c :=
  runs_passUntil ..

/-! ## Jobs that begin and end -/

/-- A new job waits for nothing yet. -/
theorem runs_startJob (w : World) (times : Nat) (c : Option Nat) :
    Runs w c (w.startJob times) c where
  setup := rfl
  run := by
    intro u hu
    refine ⟨u, .refl, hu.state, hu.idle, hu.consumer, fun number => ?_⟩
    rw [hu.jobs, show (w.startJob times).waitsFor number = w.waitsFor number from ?_]
    unfold waitsFor startJob
    rcases Nat.lt_trichotomy number w.jobs.length with hlt | rfl | hgt
    · rw [List.getElem?_append_left hlt]
    · rw [List.getElem?_concat_length, List.getElem?_eq_none (Nat.le_refl _)]
      rfl
    · rw [List.getElem?_eq_none (Nat.le_of_lt hgt), List.getElem?_eq_none]
      rw [List.length_append]
      exact hgt

theorem runs_joinJobs (fuel : Nat) (w : World) (c : Option Nat) :
    Runs w c (joinJobs fuel w) c := by
  induction fuel generalizing w with
  | zero => exact .refl w c
  | succ fuel ih =>
      have hsettle := runs_settle (fuel + 1) w c
      rw [joinJobs]
      split
      · exact hsettle
      · split
        · exact hsettle
        · exact (hsettle.trans ((same_moveTo ..).runs c)).trans (ih _)

/-- The readers that stand for the first jobs give up, one after the other. -/
theorem exists_leave (hu : w.Stands c u) (count : Nat) :
    ∃ v, Relation.ReflTransGen (Provider.World.Step w.setup) u v ∧ v.state = u.state
      ∧ v.points = u.points ∧ v.readers 0 = u.readers 0
      ∧ ∀ number, v.readers (number + 1) =
          if number < count then none else u.readers (number + 1) := by
  induction count with
  | zero => exact ⟨u, .refl, rfl, rfl, rfl, fun _ => rfl⟩
  | succ count ih =>
      obtain ⟨v, hv, hstate, hpoints, hconsumer, hjobs⟩ := ih
      have hreader : v.readers (count + 1) = (w.waitsFor count).map .look := by
        rw [hjobs, if_neg (Nat.lt_irrefl count), hu.jobs]
      -- only a reader that looks for a chunk has to give up
      cases hwaits : w.waitsFor count with
      | none =>
          refine ⟨v, hv, hstate, hpoints, hconsumer, fun number => ?_⟩
          rw [hjobs]
          rcases Nat.lt_trichotomy number count with hlt | rfl | hgt
          · rw [if_pos hlt, if_pos (by omega)]
          · rw [if_neg (Nat.lt_irrefl number), if_pos (by omega), hu.jobs, hwaits]
            rfl
          · rw [if_neg (by omega), if_neg (by omega)]
      | some index =>
          rw [hwaits] at hreader
          have hleave := Provider.World.step_abandon (p := w.setup) hreader
          refine ⟨_, hv.tail hleave, hstate, hpoints, ?_, fun number => ?_⟩
          · change Function.update v.readers (count + 1) none 0 = _
            rw [Function.update_of_ne (Nat.succ_ne_zero count).symm]
            exact hconsumer
          · change Function.update v.readers (count + 1) none (number + 1) = _
            rcases Nat.lt_trichotomy number count with hlt | rfl | hgt
            · rw [Function.update_of_ne (by omega), hjobs, if_pos hlt, if_pos (by omega)]
            · rw [Function.update_self, if_pos (by omega)]
            · rw [Function.update_of_ne (by omega), hjobs, if_neg (by omega), if_neg (by omega)]

/-- Jobs that still wait when they are joined give up. -/
theorem runs_leave (w : World) (c : Option Nat) : Runs w c { w with jobs := [] } c where
  setup := rfl
  run := by
    intro u hu
    obtain ⟨v, hv, hstate, hpoints, hconsumer, hjobs⟩ := exists_leave hu w.jobs.length
    refine ⟨v, hv, hstate.trans hu.state, ?_, hconsumer.trans hu.consumer, fun number => ?_⟩
    · rw [hpoints]; exact hu.idle
    · rw [hjobs]
      split
      · rfl
      · rename_i hge
        rw [hu.jobs, waitsFor, List.getElem?_eq_none (Nat.le_of_not_lt hge)]
        rfl

theorem runs_join (w : World) (c : Option Nat) : Runs w c w.join.1 c :=
  (runs_joinJobs patienceFuel w c).trans (runs_leave _ c)

end World

/-! ## Whole rehearsals -/

/-- What came of a rehearsal of a provider, whatever was done with it. -/
inductive Played (p : Setup) (opened : Move) : World → Prop where
  | create (wall : Timestamp) (linkService : LinkService) (downloads : DownloadService)
      (logsEvents : Bool) :
      Played p opened (World.create p opened wall linkService downloads logsEvents)
  | advance {w : World} (h : Played p opened w) (timeout : Option Nat) :
      Played p opened (w.advance timeout).1
  | sleep {w : World} (h : Played p opened w) (ms : Nat) : Played p opened (w.sleep ms)
  | rest {w : World} (h : Played p opened w) : Played p opened w.rest
  | startJob {w : World} (h : Played p opened w) (times : Nat) : Played p opened (w.startJob times)
  | join {w : World} (h : Played p opened w) : Played p opened w.join.1
  | note {w : World} (h : Played p opened w) (entries : List Log.Entry) :
      Played p opened (w.note entries)
  | close {w : World} (h : Played p opened w) : Played p opened w.close

/-- **A rehearsal does nothing that a world does not.** -/
theorem played_reachable {p : Setup} {opened : Move} {w : World} (h : Played p opened w) :
    w.setup = p ∧ ∃ u, Provider.World.Reachable p opened u ∧ w.Stands none u := by
  have later : ∀ {w w' : World}, World.Runs w none w' none →
      (w.setup = p ∧ ∃ u, Provider.World.Reachable p opened u ∧ w.Stands none u) →
      w'.setup = p ∧ ∃ u, Provider.World.Reachable p opened u ∧ w'.Stands none u := by
    rintro w w' hruns ⟨rfl, u, ⟨now, hu⟩, hstands⟩
    obtain ⟨v, hv, hstands'⟩ := hruns.run hstands
    exact ⟨hruns.setup, v, ⟨now, hu.trans hv⟩, hstands'⟩
  induction h with
  | create wall linkService downloads logsEvents =>
      have hsame := World.same_performAll opened.effects
        { setup := p, state := opened.state, wall, linkService, downloads, logsEvents }
      refine ⟨hsame.setup, _, ⟨⟨.ofSecs 0, .zero⟩, .refl⟩, hsame.state.symm, fun _ => rfl, rfl, ?_⟩
      intro number
      rw [World.create, hsame.waitsFor]
      rfl
  | advance _ timeout ih => exact later (World.runs_advance _ timeout) ih
  | sleep _ ms ih => exact later (World.runs_sleep _ ms none) ih
  | rest _ ih => exact later (World.runs_settle _ _ none) ih
  | startJob _ times ih => exact later (World.runs_startJob _ times none) ih
  | join _ ih => exact later (World.runs_join _ none) ih
  | note _ entries ih => exact later ((World.same_note _ entries).runs none) ih
  | close _ ih => exact later (World.runs_close _ none) ih

end Rehearsal

end ResultChunks
