import Mathlib.Data.List.Perm.Subperm
import ResultChunks.Proofs.Provider.Vouched

/-!
# Calls that are made when the lock is free

A task decides on a call when it looks for the last time whether the provider is open, and makes it
when the lock is free again. A world puts the call on record when it is decided on. A scene keeps apart
what a world does not: a call that was decided on is due, the task makes it later, and what happens in
between is up to all the others. Otherwise a scene is a world, and every world is that of a scene in
which each call was made at once.

So a close does not stop a call that is due already, though an abort may come in time for it. It stops
all others: no task decides on a call after a close, and before it each task in flight has decided on
one at most that it did not make.
-/

namespace ResultChunks.Provider

variable {p : Setup} {m : Manifest} {config : FetchConfig} {method : Method} {opened : Move}

/-- A world, and which of the calls on record were made. -/
structure Scene where
  world : World
  /-- The calls that tasks decided on and did not make yet, each with the chunk of its task. -/
  due : List (Nat × Call) := []
  /-- The calls that were made, in order. -/
  made : List (Nat × Call) := []

/-- Something that can happen in a scene. -/
inductive Beat where
  /-- An action of the world. -/
  | tick (t : Tick)
  /-- The task of a chunk makes the call that is due. -/
  | make (chunk : Nat) (call : Call)
  /-- The task of a chunk is dropped before it makes the call that is due. -/
  | drop (chunk : Nat) (call : Call)
deriving Inhabited

namespace Scene

variable {c c' c'' : Scene}

/-- A task hears no answer to a call that it did not make yet. -/
def allows (c : Scene) : Action → Bool
  | .hear i _ => (c.due.map Prod.fst).all (· != i)
  | _ => true

/-- What happens in a scene, if it is possible. Tasks are dropped by a close only. -/
def act (p : Setup) (c : Scene) : Beat → Option Scene
  | .tick t =>
    if c.allows t.action then
      (c.world.act p t).map fun w =>
        { c with world := w, due := c.due ++ callsMade (w.log.drop c.world.log.length) }
    else none
  | .make i call =>
    if (i, call) ∈ c.due then
      some { c with due := c.due.erase (i, call), made := c.made ++ [(i, call)] }
    else none
  | .drop i call =>
    if c.world.state.closed ∧ (i, call) ∈ c.due then
      some { c with due := c.due.erase (i, call) }
    else none

/-- The scenes that can come next, one case for each kind of beat. -/
inductive Taken (p : Setup) (c : Scene) : Scene → Prop where
  | ticked {t : Tick} {w : World} {more : List Event} (hallows : c.allows t.action = true)
      (hact : c.world.act p t = some w) (hlog : w.log = c.world.log ++ more) :
      Taken p c { c with world := w, due := c.due ++ callsMade more }
  | made {i : Nat} {call : Call} (hdue : (i, call) ∈ c.due) :
      Taken p c { c with due := c.due.erase (i, call), made := c.made ++ [(i, call)] }
  | dropped {i : Nat} {call : Call} (hclosed : c.world.state.closed = true)
      (hdue : (i, call) ∈ c.due) : Taken p c { c with due := c.due.erase (i, call) }

/-- **What can happen in a scene.** -/
theorem act_taken {b : Beat} (h : c.act p b = some c') : Taken p c c' := by
  cases b with
  | tick t =>
      rw [act] at h
      split at h
      · rename_i hallows
        obtain ⟨w, hact, rfl⟩ := Option.map_eq_some_iff.1 h
        obtain ⟨more, hlog, -⟩ := World.act_calls hact
        rw [hlog, List.drop_left]
        exact .ticked hallows hact hlog
      · cases h
  | make i call =>
      rw [act] at h
      split at h
      · rename_i hdue
        obtain rfl := Option.some.inj h
        exact .made hdue
      · cases h
  | drop i call =>
      rw [act] at h
      split at h
      · rename_i hdrop
        obtain rfl := Option.some.inj h
        exact .dropped hdrop.1 hdrop.2
      · cases h

/-- Something happens. -/
def Step (p : Setup) (c c' : Scene) : Prop := ∃ b, c.act p b = some c'

theorem Step.taken (h : Step p c c') : Taken p c c' := by
  obtain ⟨b, hb⟩ := h
  exact act_taken hb

/-- A run of beats, if all of them are possible. -/
def exec (p : Setup) (c : Scene) : List Beat → Option Scene
  | [] => some c
  | b :: bs => (c.act p b).bind fun c => c.exec p bs

theorem exec_cons {b : Beat} {bs : List Beat} (h : c.exec p (b :: bs) = some c') :
    ∃ v, c.act p b = some v ∧ v.exec p bs = some c' := by
  rw [exec] at h
  exact Option.bind_eq_some_iff.1 h

theorem steps_of_exec {bs : List Beat} (h : c.exec p bs = some c') :
    Relation.ReflTransGen (Step p) c c' := by
  induction bs generalizing c with
  | nil => obtain rfl := Option.some.inj h; exact .refl
  | cons b bs ih =>
      obtain ⟨v, hv, hrest⟩ := exec_cons h
      exact .head ⟨b, hv⟩ (ih hrest)

/-- A scene that came about from a provider that was just created. -/
def Reachable (p : Setup) (opened : Move) (c : Scene) : Prop :=
  ∃ now, Relation.ReflTransGen (Step p) { world := World.start now opened } c

/-- **What holds at the start and survives every beat holds of every reachable scene.** -/
theorem Reachable.keeps {P : Scene → Prop} (h : Reachable p opened c)
    (hstart : ∀ now, P { world := World.start now opened })
    (hstep : ∀ {c c' : Scene}, Reachable p opened c → P c → Taken p c c' → P c') : P c := by
  obtain ⟨now, hc⟩ := h
  induction hc with
  | refl => exact hstart now
  | tail hpast hlast ih => exact hstep ⟨now, hpast⟩ ih hlast.taken

/-- What a run of beats shows, some reachable scene has. -/
theorem exists_reachable {P : Scene → Prop} [DecidablePred P] (now : Moment) (bs : List Beat)
    (h : ((Scene.exec p { world := World.start now opened } bs).any fun c => decide (P c)) = true) :
    ∃ c, Reachable p opened c ∧ P c := by
  obtain ⟨c, hc, hP⟩ := (Option.any_eq_true _ _).1 h
  exact ⟨c, ⟨now, steps_of_exec hc⟩, of_decide_eq_true hP⟩

/-! ## Scenes and worlds -/

/-- A beat is an action of the world, or nothing to it. -/
theorem Taken.world (h : Taken p c c') : c'.world = c.world ∨ World.Step p c.world c'.world := by
  cases h with
  | ticked _ hact _ => exact Or.inr ⟨_, hact⟩
  | made | dropped => exact Or.inl rfl

theorem steps_world (h : Relation.ReflTransGen (Step p) c c') :
    Relation.ReflTransGen (World.Step p) c.world c'.world := by
  induction h with
  | refl => exact .refl
  | tail _ hlast ih =>
      rcases hlast.taken.world with hsame | hstep
      · rw [hsame]; exact ih
      · exact ih.tail hstep

/-- **The world of a scene is reachable**, so what holds of all worlds holds of it. -/
theorem Reachable.world (h : Reachable p opened c) : World.Reachable p opened c.world := by
  obtain ⟨now, hsteps⟩ := h
  exact ⟨now, steps_world hsteps⟩

/-- All calls that are due can be made, one after the other. -/
theorem makes_all (c : Scene) :
    Relation.ReflTransGen (Step p) c { c with due := [], made := c.made ++ c.due } := by
  obtain ⟨w, due, made⟩ := c
  induction due generalizing made with
  | nil => rw [List.append_nil]
  | cons x due ih =>
      have hmake : Step p ⟨w, x :: due, made⟩ ⟨w, due, made ++ [x]⟩ := by
        refine ⟨.make x.1 x.2, ?_⟩
        rw [act, if_pos List.mem_cons_self, List.erase_cons_head]
      have hrest := ih (made ++ [x])
      rw [List.append_assoc] at hrest
      exact .head hmake hrest

theorem calls_start (hcreate : create m config method = .ok (p, opened)) (now : Moment) :
    callsMade (World.start now opened).log = [] := by
  obtain ⟨rfl, entry, rfl⟩ := create_eq hcreate
  exact (callsMade_did now _).trans (fill_calls _ _)

/-- **Every reachable world is that of a scene in which all calls on record were made.** -/
theorem of_world {w : World} (hcreate : create m config method = .ok (p, opened))
    (hw : World.Reachable p opened w) :
    Reachable p opened { world := w, made := callsMade w.log } := by
  obtain ⟨now, hsteps⟩ := hw
  induction hsteps with
  | refl =>
      rw [calls_start hcreate]
      exact ⟨now, .refl⟩
  | @tail v w _ hlast ih =>
      obtain ⟨start, hpast⟩ := ih
      obtain ⟨t, hact⟩ := hlast
      obtain ⟨more, hlog, -⟩ := World.act_calls hact
      -- no call is due, so every action is allowed
      have hallows : ∀ a, Scene.allows { world := v, made := callsMade v.log } a = true := by
        intro a
        cases a <;> rfl
      have htick : Step p { world := v, made := callsMade v.log }
          { world := w, due := callsMade more, made := callsMade v.log } := by
        refine ⟨.tick t, ?_⟩
        rw [act, if_pos (hallows _), hact, Option.map_some, hlog, List.drop_left, List.nil_append]
      -- each call that the action decided on is made before the next action
      have hmakes := makes_all (p := p)
        { world := w, due := callsMade more, made := callsMade v.log }
      refine ⟨start, (hpast.tail htick).trans ?_⟩
      rw [hlog, callsMade_append]
      exact hmakes

/-- **What was called or is due is on record**, and as long as the provider is open no other call
is. -/
theorem recorded_reachable (hcreate : create m config method = .ok (p, opened))
    (h : Reachable p opened c) :
    (c.made ++ c.due).Subperm (callsMade c.world.log)
      ∧ (c.world.state.closed = false → (c.made ++ c.due).Perm (callsMade c.world.log)) := by
  refine h.keeps (P := fun c => (c.made ++ c.due).Subperm (callsMade c.world.log)
    ∧ (c.world.state.closed = false → (c.made ++ c.due).Perm (callsMade c.world.log))) ?_ ?_
  · intro now
    rw [calls_start hcreate]
    exact ⟨.refl _, fun _ => .refl _⟩
  · intro c c' _ ih htaken
    cases htaken with
    | @ticked t w more _ hact hlog =>
        change (c.made ++ (c.due ++ callsMade more)).Subperm (callsMade w.log)
          ∧ (w.state.closed = false → (c.made ++ (c.due ++ callsMade more)).Perm (callsMade w.log))
        rw [hlog, callsMade_append, ← List.append_assoc]
        refine ⟨(List.subperm_append_right _).2 ih.1, fun hopen => ?_⟩
        exact (ih.2 ((World.act_taken hact).open hopen)).append_right _
    | @made i call hdue =>
        have hperm : (c.made ++ [(i, call)] ++ c.due.erase (i, call)).Perm (c.made ++ c.due) := by
          rw [List.append_assoc]
          exact (List.perm_cons_erase hdue).symm.append_left _
        exact ⟨hperm.subperm.trans ih.1, fun hopen => hperm.trans (ih.2 hopen)⟩
    | @dropped i call hclosed hdue =>
        -- the record keeps the call, so it has more than was made or is due
        refine ⟨?_, fun hopen => ?_⟩
        · exact ((List.subperm_append_left _).2 (List.erase_subperm ..)).trans ih.1
        · rw [hclosed] at hopen
          cases hopen

end Scene

/-! ## What is due while the provider is open -/

namespace World

variable {w w' : World} {i : Nat} {call : Call} {t : Tick}

/-- A task decided on a call, and does nothing before it hears the answer. -/
structure Waits (w : World) (i : Nat) (call : Call) : Prop where
  idle : w.points i = none
  phase : Phase.Awaits w.state.tasks[i]? (some call)

/-- Nobody else ends the wait of a task. -/
theorem Waits.act (h : w.Waits i call) (hact : w.act p t = some w')
    (hopen : w'.state.closed = false) (hi : ∀ signal, t.action ≠ .hear i signal) :
    w'.Waits i call := by
  obtain ⟨now, addition, action⟩ := t
  -- a leg of a reader that leaves the tasks alone
  have reader : ∀ {k : Nat} {wait : Nat → Reader} {r : State × List Effect × Progress},
      r.1.tasks = w.state.tasks → (w.runReader now k wait r).Waits i call := by
    intro k wait r hr
    refine ⟨by rw [points_runReader]; exact h.idle, ?_⟩
    rw [state_runReader, hr]
    exact h.phase
  unfold World.act at hact
  cases action with
  | hear j signal =>
      have hij : i ≠ j := by
        rintro rfl
        exact hi signal rfl
      dsimp only at hact
      split at hact
      · rename_i l _ hl
        obtain rfl := Option.some.inj hact
        refine ⟨(Function.update_of_ne hij ..).trans h.idle, ?_⟩
        rw [state_runLeg, (State.hear_quiet hl).tasks_ne hij]
        exact h.phase
      · cases hact
  | run j =>
      obtain ⟨pt, hp, rfl⟩ := Option.map_eq_some_iff.1 hact
      -- a task that waits has no leg to run
      have hij : i ≠ j := by
        rintro rfl
        rw [h.idle] at hp
        cases hp
      refine ⟨(Function.update_of_ne hij ..).trans h.idle, ?_⟩
      rw [state_runLeg, leg_tasks_ne hij]
      exact h.phase
  | call k =>
      dsimp only at hact
      split at hact
      · obtain rfl := Option.some.inj hact
        obtain ⟨store, held, current, hframe⟩ := State.moveOn_frame p w.state
        exact reader (by rw [hframe])
      · cases hact
  | fill k =>
      dsimp only at hact
      split at hact
      · obtain rfl := Option.some.inj hact
        refine ⟨by rw [points_runReader]; exact h.idle, ?_⟩
        rw [state_runReader]
        exact fill_awaits h.phase
      · cases hact
  | look k =>
      dsimp only at hact
      split at hact
      · rename_i n _
        obtain rfl := Option.some.inj hact
        obtain ⟨current, surfaced, hframe⟩ := State.look_frame w.state now.elapsed n
        exact reader (by rw [hframe])
      · cases hact
  | abandon k =>
      dsimp only at hact
      split at hact
      · obtain rfl := Option.some.inj hact
        exact ⟨h.idle, h.phase⟩
      · cases hact
  | close =>
      obtain rfl := Option.some.inj hact
      exact absurd hopen (not_open_of_close w _)

/-- **An action decides on one call at most**, which is that of a task that goes on to wait. -/
theorem act_waits {more : List Event} (hcreate : create m config method = .ok (p, opened))
    (hw : Reachable p opened w) (hact : w.act p t = some w') (hopen : w'.state.closed = false)
    (hlog : w'.log = w.log ++ more) : callsMade more = []
      ∨ ∃ i call, callsMade more = [(i, call)] ∧ w.points i ≠ none ∧ w'.Waits i call := by
  have htaken := act_taken hact
  have hopen₀ := htaken.open hopen
  have hmore : ∀ {more' : List Event}, w'.log = w.log ++ more' → more' = more :=
    fun hlog' => List.append_cancel_left (hlog'.symm.trans hlog)
  -- a leg of a reader makes no call
  have reader : ∀ {k : Nat} {now : Moment} {wait : Nat → Reader}
      {r : State × List Effect × Progress}, callsIn r.2.1 = [] → w' = w.runReader now k wait r →
      callsMade more = [] := by
    intro k now wait r hr hw'
    obtain ⟨more', hlog', hcalls⟩ := calls_runReader (w := w) hr now k wait
    rw [← hw'] at hlog'
    rw [← hmore hlog']
    exact hcalls
  cases htaken with
  | @heard i signal l now addition hp hl =>
      left
      obtain rfl := hmore (List.append_assoc w.log [.heard i signal] (l.effects.map (.did now)))
      rw [callsMade_append, callsMade_heard, callsMade_did, hear_noCalls hl]
      rfl
  | @ran i pt now addition hp =>
      obtain ⟨phase, hph, -⟩ := (sound_reachable hcreate hw hopen₀).running hp
      have hleg : LegCalls i (w.state.leg p now addition i pt) := leg_calls hph pt
      obtain ⟨c, hcalls, hnext, -⟩ := hleg
      rw [← hmore rfl, callsMade_did, hcalls]
      cases c with
      | none => exact Or.inl rfl
      | some call =>
          -- a leg that decides on a call is the last one of its stretch
          have hlast : (w.state.leg p now addition i pt).next = none := by
            by_contra hgoes
            rw [if_pos (Option.isSome_iff_ne_none.2 hgoes)] at hnext
            cases hnext
          rw [hlast, Option.isSome_none, if_neg Bool.false_ne_true] at hnext
          refine Or.inr ⟨i, call, rfl, ?_, (Function.update_self ..).trans hlast, hnext⟩
          rw [hp]
          exact Option.some_ne_none pt
  | called now hk => exact Or.inl (reader (moveOn_calls p w.state) rfl)
  | filled now hk => exact Or.inl (reader (fill_calls p w.state) rfl)
  | looked now hk => exact Or.inl (reader (look_calls w.state _ _) rfl)
  | abandoned hk => exact Or.inl (by rw [← hmore (List.append_nil _).symm]; rfl)
  | closed now => exact absurd hopen (not_open_of_close w now)

end World

namespace Scene

variable {c c' : Scene}

/-- At most one call of each task is due, and the task waits for the answer. -/
structure Owes (c : Scene) : Prop where
  once : (c.due.map Prod.fst).Nodup
  waits : ∀ {i : Nat} {call : Call}, (i, call) ∈ c.due → c.world.Waits i call

/-- A call that is due no more. -/
theorem Owes.erase (h : Owes c) (x : Nat × Call) (made : List (Nat × Call)) :
    Owes { c with due := c.due.erase x, made } where
  once := h.once.sublist (List.erase_sublist.map _)
  waits := fun hx => h.waits (List.mem_of_mem_erase hx)

theorem owes_reachable (hcreate : create m config method = .ok (p, opened))
    (h : Reachable p opened c) : c.world.state.closed = false → Owes c := by
  refine h.keeps (P := fun c => c.world.state.closed = false → Owes c) ?_ ?_
  · intro now _
    refine ⟨List.nodup_nil, fun hx => ?_⟩
    cases hx
  · intro c c' hc ih htaken hopen
    cases htaken with
    | @ticked t w more hallows hact hlog =>
        have howes := ih ((World.act_taken hact).open hopen)
        -- what was due stays due, for no task hears an answer before its call
        have hold : ∀ {i : Nat} {call : Call}, (i, call) ∈ c.due → w.Waits i call := by
          intro i call hx
          refine (howes.waits hx).act hact hopen fun signal hi => ?_
          rw [hi] at hallows
          have hne := List.all_eq_true.1 hallows i (List.mem_map_of_mem hx)
          exact bne_iff_ne.1 hne rfl
        rcases World.act_waits hcreate hc.world hact hopen hlog with
          hnone | ⟨i, call, hcall, hruns, hwaits⟩
        · rw [hnone, List.append_nil]
          exact ⟨howes.once, hold⟩
        · rw [hcall]
          refine ⟨?_, fun hx => ?_⟩
          · -- the task of the new call ran a leg, so it had none due
            rw [List.map_append, List.nodup_append]
            refine ⟨howes.once, List.pairwise_singleton .., ?_⟩
            rintro j hj k hk rfl
            obtain rfl := List.mem_singleton.1 hk
            obtain ⟨x, hx, rfl⟩ := List.mem_map.1 hj
            exact hruns (howes.waits hx).idle
          · rcases List.mem_append.1 hx with hx | hx
            · exact hold hx
            · obtain ⟨rfl, rfl⟩ := Prod.mk.inj (List.mem_singleton.1 hx)
              exact hwaits
    | made hdue => exact (ih hopen).erase _ _
    | dropped hclosed hdue => exact (ih hopen).erase _ _

/-! ## After a close -/

/-- **No call becomes due after a close.** Whatever was called since was due before, each call at most
once. -/
theorem late_of_steps (hshut : Shut c.world.state) (h : Relation.ReflTransGen (Step p) c c') :
    ∃ late, c'.made = c.made ++ late ∧ (late ++ c'.due).Subperm c.due := by
  induction h with
  | refl => exact ⟨[], (List.append_nil _).symm, .refl _⟩
  | @tail v v' hpast hlast ih =>
      obtain ⟨late, hmade, hlate⟩ := ih
      have hv := (World.still_of_steps hshut (steps_world hpast)).shut hshut
      cases hlast.taken with
      | @ticked t w more _ hact hlog =>
          obtain ⟨more', hlog', hdeclined⟩ := ((World.act_taken hact).still hv).log
          obtain rfl := List.append_cancel_left (hlog'.symm.trans hlog)
          refine ⟨late, hmade, ?_⟩
          rw [hdeclined.calls, List.append_nil]
          exact hlate
      | @made i call hdue =>
          refine ⟨late ++ [(i, call)], ?_, ?_⟩
          · rw [hmade, List.append_assoc]
          · rw [List.append_assoc]
            exact ((List.perm_cons_erase hdue).symm.append_left late).subperm.trans hlate
      | @dropped i call hclosed hdue =>
          exact ⟨late, hmade, ((List.subperm_append_left _).2 (List.erase_subperm ..)).trans hlate⟩

end Scene

/-- What a provider that was closed in scene `c` is in a later scene `v`. -/
structure Stopped (p : Setup) (c v : Scene) : Prop where
  /-- The provider is closed for good, and no task decides on a call. -/
  final : Final p c.world v.world
  /-- Every call that was made since was due at the close, and so is every call that is due now. -/
  calls : ∃ late, v.made = c.made ++ late ∧ (late ++ v.due).Subperm c.due
  /-- What was due were calls of tasks in flight, one at most for each, and the one it waits for. -/
  due : c.world.state.closed = false → (c.due.map Prod.fst).Nodup
    ∧ ∀ i call, (i, call) ∈ c.due → i ∈ c.world.state.inFlight
      ∧ Phase.Awaits c.world.state.tasks[i]? (some call)

/-- A task that waits for an answer has not ended. -/
theorem Phase.Awaits.running {o : Option Phase} {call : Call} (h : Phase.Awaits o (some call)) :
    ∃ phase, o = some phase ∧ phase ≠ .ended := by
  unfold Phase.Awaits at h
  split at h
  · exact ⟨_, rfl, Phase.noConfusion⟩
  · exact ⟨_, rfl, Phase.noConfusion⟩
  · exact ⟨_, rfl, Phase.noConfusion⟩
  · cases h

/-- **A close is final, but for the calls that were due.** Whatever the tasks and the readers of a
provider are in the middle of when it is closed, in every later scene its world is final, and no call
was made since but those that tasks had decided on by then, each of them once, and one at most for each
task in flight. -/
theorem close_final_but_due {c c₁ c₂ : Scene} {t : Tick}
    (hcreate : create m config method = .ok (p, opened)) (hc : Scene.Reachable p opened c)
    (ht : t.action = .close) (hclose : c.act p (.tick t) = some c₁)
    (hsteps : Relation.ReflTransGen (Scene.Step p) c₁ c₂) : Stopped p c c₂ := by
  obtain ⟨now, addition, action⟩ := t
  obtain rfl : action = .close := ht
  -- the close itself decides on no call
  obtain ⟨hdue, hmade, hworld⟩ : c₁.due = c.due ∧ c₁.made = c.made
      ∧ c.world.act p ⟨now, addition, .close⟩ = some c₁.world := by
    obtain rfl := Option.some.inj hclose
    refine ⟨?_, rfl, rfl⟩
    change c.due ++ callsMade ((c.world.log ++ _).drop c.world.log.length) = c.due
    rw [List.drop_left, callsMade_did, close_calls, List.append_nil]
  have hshut : Shut c₁.world.state := by
    obtain rfl := Option.some.inj hclose
    exact World.shut_closed hcreate hc.world
  refine ⟨close_final hcreate hc.world rfl hworld (Scene.steps_world hsteps), ?_, ?_⟩
  · obtain ⟨late, hlate, hsub⟩ := Scene.late_of_steps hshut hsteps
    rw [hmade] at hlate
    rw [hdue] at hsub
    exact ⟨late, hlate, hsub⟩
  · intro hopen
    have howes := Scene.owes_reachable hcreate hc hopen
    have hsound := World.sound_reachable hcreate hc.world hopen
    refine ⟨howes.once, fun i call hx => ?_⟩
    have hphase := (howes.waits hx).phase
    exact ⟨hsound.flight.2 hphase.running, hphase⟩

namespace Sample

/-- The call of a chunk's task, which downloads with its link. -/
def callOf (i : Nat) : Call := .payload (linkUntil 100 i)

/-- Both tasks decided on their calls, and that of chunk 0 made it. -/
def secondDue : List Beat :=
  (stretch 0 .start 3 ++ stretch 1 .start 3).map .tick ++ [.make 0 (callOf 0)]

/-- The call of chunk 1 is dropped, the payload of chunk 0 arrives, and a call of `advance` begins. -/
def secondDropped : List Beat :=
  .drop 1 (callOf 1) ::
    (stretch 0 (.payload (.ok (payload 0))) 1 ++ [tick (.call 0)]).map .tick

end Sample

/-- After a close that comes between, one call is dropped and the payload of another too. -/
theorem close_final_but_due_dropped :
    ∃ c v, Scene.Reachable (Sample.opened Sample.bothLinks).1 (Sample.opened Sample.bothLinks).2 c
      ∧ c.due = [(1, Sample.callOf 1)] ∧ v.made = [(0, Sample.callOf 0)] ∧ v.due = []
      ∧ v.world.payloads 0 = [Sample.payload 0]
      ∧ Stopped (Sample.opened Sample.bothLinks).1 c v := by
  let p := (Sample.opened Sample.bothLinks).1
  obtain ⟨c, hc, hdue, hlater⟩ : ∃ c, Scene.Reachable p (Sample.opened Sample.bothLinks).2 c
      ∧ c.due = [(1, Sample.callOf 1)]
      ∧ ((c.exec p (.tick (Sample.tick .close) :: Sample.secondDropped)).any fun v =>
          decide (v.made = [(0, Sample.callOf 0)] ∧ v.due = []
            ∧ v.world.payloads 0 = [Sample.payload 0])) = true :=
    Scene.exists_reachable Sample.dawn Sample.secondDue (by decide +kernel)
  obtain ⟨v, hv, hthen⟩ := (Option.any_eq_true _ _).1 hlater
  obtain ⟨hmade, hnone, hpayload⟩ := of_decide_eq_true hthen
  obtain ⟨c₁, hclose, hrest⟩ := Scene.exec_cons hv
  exact ⟨c, v, hc, hdue, hmade, hnone, hpayload,
    close_final_but_due (Sample.create_opened Sample.bothLinks) hc rfl hclose
      (Scene.steps_of_exec hrest)⟩

/-- A task that decided on its call before a close makes it after the close. -/
theorem call_made_after_close :
    ∃ c v, Scene.Reachable (Sample.opened Sample.bothLinks).1 (Sample.opened Sample.bothLinks).2 c
      ∧ c.exec (Sample.opened Sample.bothLinks).1
          [.tick (Sample.tick .close), .make 1 (Sample.callOf 1)] = some v
      ∧ c.made = [(0, Sample.callOf 0)]
      ∧ v.made = [(0, Sample.callOf 0), (1, Sample.callOf 1)] := by
  let p := (Sample.opened Sample.bothLinks).1
  obtain ⟨c, hc, hmade, hlater⟩ : ∃ c, Scene.Reachable p (Sample.opened Sample.bothLinks).2 c
      ∧ c.made = [(0, Sample.callOf 0)]
      ∧ ((c.exec p [.tick (Sample.tick .close), .make 1 (Sample.callOf 1)]).any fun v =>
          decide (v.made = [(0, Sample.callOf 0), (1, Sample.callOf 1)])) = true :=
    Scene.exists_reachable Sample.dawn Sample.secondDue (by decide +kernel)
  obtain ⟨v, hv, hthen⟩ := (Option.any_eq_true _ _).1 hlater
  exact ⟨c, v, hc, hv, hmade, of_decide_eq_true hthen⟩

end ResultChunks.Provider
