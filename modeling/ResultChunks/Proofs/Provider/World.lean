import Mathlib.Logic.Function.Basic
import Mathlib.Logic.Relation
import ResultChunks.Proofs.Provider.Leg
import ResultChunks.Provider.Consumer

/-!
# Worlds

A world is a provider with everything that can happen to it: tasks hear answers and run their legs,
readers call `advance`, wait and give up, someone closes the provider. `act` says what one such
action does, `Step` that some action was taken, and `Reachable` that a world came about from a
provider that was just created. Nothing else is assumed of the order, the answers or the clock. A task
that decides on a call is on record with it at once, whenever it makes the call.

A call of `advance` has legs of its own. It moves on, claims what may be claimed, and looks for its
chunk until that is there, and the lock is free in between. Any number of calls may be under way;
`Solo` says that there is at most one.

The log and the past are ghosts. No action reads them; they record what happened so that later
worlds can be compared with earlier ones.
-/

namespace ResultChunks.Provider

/-- What a call of `advance` comes to. -/
abbrev Answer := Except FetchError (Option Handle)

/-- Where a call of `advance` stands between two of its legs. -/
inductive Reader where
  /-- It moved on to a chunk and will claim what may be claimed. -/
  | fill (next : Nat)
  /-- It looks for a chunk, and looks again until the chunk is there. -/
  | look (next : Nat)
deriving DecidableEq, Repr, Inhabited

/-- What is on record. -/
inductive Event where
  /-- The task of a chunk heard an answer. -/
  | heard (chunk : Nat) (signal : Signal)
  /-- A leg had an effect. -/
  | did (now : Moment) (effect : Effect)
  /-- A reader's call returned. -/
  | returned (reader : Nat) (answer : Answer)
deriving Inhabited

/-- A provider with its tasks and its readers. -/
structure World where
  state : State
  /-- The next leg of each chunk's task, if it is in the middle of a stretch. -/
  points : Nat → Option Point := fun _ => none
  /-- The calls of `advance` that are under way. -/
  readers : Nat → Option Reader := fun _ => none
  /-- All that happened, in order. -/
  log : List Event := []
  /-- Every state so far, the present one first. -/
  past : List State

/-- Something that can happen. -/
inductive Action where
  | hear (chunk : Nat) (signal : Signal)
  /-- The task of a chunk runs its next leg. -/
  | run (chunk : Nat)
  /-- A reader calls `advance`. -/
  | call (reader : Nat)
  | fill (reader : Nat)
  | look (reader : Nat)
  /-- A reader gives up waiting. -/
  | abandon (reader : Nat)
  | close
deriving Inhabited

/-- An action, the moment of it, and the random part of a wait that it may begin. -/
structure Tick where
  now : Moment
  addition : Duration
  action : Action
deriving Inhabited

/-- The first leg of `advance`: consume the chunk handed out last and move on to the next one. The
answer is there at once, or the reader is to wait for a chunk. -/
def State.moveOn (p : Setup) (s : State) : State × List Effect × Progress :=
  if s.closed then (s, [], .done (.error .closed))
  else
    match s.surfaced with
    | some error => (s, [], .done (.error error))
    | none =>
      match s.releaseCurrent p with
      | .error e => (s, [], .done (.error e))
      | .ok m =>
        let next := (s.current + 1).toNat
        if p.count ≤ next then
          ({ m.state with current := p.count },
            m.effects ++ [note .trace s!"Chunk provider exhausted after {p.count} chunks"],
            .done (.ok none))
        else (m.state, m.effects, .waiting next)

/-- The second leg of `advance`: claim what may be claimed, and then look for the chunk. -/
def State.claims (p : Setup) (s : State) (next : Nat) : State × List Effect × Progress :=
  ((s.fill p).state, (s.fill p).effects, .waiting next)

/-- **`advance` is its legs in a row.** -/
theorem State.advance_eq (p : Setup) (s : State) : s.advance p =
    match s.moveOn p with
    | (s, effects, .done answer) => (s, effects, .done answer)
    | (s, effects, .waiting next) =>
      let (s, claimed, _) := s.claims p next
      let (s, looked, progress) := s.look .zero next
      (s, effects ++ claimed ++ looked, progress) := by
  rw [advance, moveOn]
  by_cases hc : s.closed
  · rw [if_pos hc, if_pos hc]
  · rw [if_neg hc, if_neg hc]
    cases s.surfaced with
    | some error => rfl
    | none =>
        dsimp only
        cases s.releaseCurrent p with
        | error e => rfl
        | ok m =>
            dsimp only
            split
            · rfl
            · rfl

namespace World

/-- The world of a provider that was just created. -/
def start (now : Moment) (opened : Move) : World :=
  { state := opened.state, log := opened.effects.map (.did now), past := [opened.state] }

/-- Go to a state and put effects on record. -/
def move (w : World) (now : Moment) (s : State) (effects : List Effect) : World :=
  { w with state := s, log := w.log ++ effects.map (.did now), past := s :: w.past }

/-- The task of a chunk hears an answer. -/
def hears (w : World) (i : Nat) (signal : Signal) : World :=
  { w with log := w.log ++ [.heard i signal] }

/-- Run a leg of a task. -/
def runLeg (w : World) (now : Moment) (i : Nat) (l : Leg) : World :=
  { w.move now l.state l.effects with points := Function.update w.points i l.next }

/-- Run a leg of a reader, which goes on with `wait` if its chunk is not there. -/
def runReader (w : World) (now : Moment) (k : Nat) (wait : Nat → Reader) :
    State × List Effect × Progress → World
  | (s, effects, .done answer) =>
    { w.move now s effects with
      readers := Function.update w.readers k none
      log := w.log ++ effects.map (.did now) ++ [Event.returned k answer] }
  | (s, effects, .waiting next) =>
    { w.move now s effects with readers := Function.update w.readers k (some (wait next)) }

/-- What an action does, if it is possible. -/
def act (p : Setup) (w : World) (t : Tick) : Option World :=
  match t.action with
  | .hear i signal =>
    match w.points i, w.state.hear p t.addition i signal with
    | none, some l => some ((w.hears i signal).runLeg t.now i l)
    | _, _ => none
  | .run i => (w.points i).map fun pt =>
      w.runLeg t.now i (w.state.leg p t.now t.addition i pt)
  | .call k =>
    match w.readers k with
    | none => some (w.runReader t.now k .fill (w.state.moveOn p))
    | some _ => none
  | .fill k =>
    match w.readers k with
    | some (.fill next) => some (w.runReader t.now k .look (w.state.claims p next))
    | _ => none
  | .look k =>
    match w.readers k with
    | some (.look next) => some (w.runReader t.now k .look (w.state.look t.now.elapsed next))
    | _ => none
  | .abandon k =>
    match w.readers k with
    | some (.look _) => some { w with readers := Function.update w.readers k none }
    | _ => none
  | .close => some (w.move t.now w.state.close.state w.state.close.effects)

/-- The worlds that an action can lead to, one case for each kind of action. -/
inductive Taken (p : Setup) (w : World) : World → Prop where
  | heard {i : Nat} {signal : Signal} {l : Leg} (now : Moment) {addition : Duration}
      (hp : w.points i = none) (hl : w.state.hear p addition i signal = some l) :
      Taken p w ((w.hears i signal).runLeg now i l)
  | ran {i : Nat} {pt : Point} (now : Moment) (addition : Duration) (hp : w.points i = some pt) :
      Taken p w (w.runLeg now i (w.state.leg p now addition i pt))
  | called {k : Nat} (now : Moment) (hk : w.readers k = none) :
      Taken p w (w.runReader now k .fill (w.state.moveOn p))
  | filled {k n : Nat} (now : Moment) (hk : w.readers k = some (.fill n)) :
      Taken p w (w.runReader now k .look (w.state.claims p n))
  | looked {k n : Nat} (now : Moment) (hk : w.readers k = some (.look n)) :
      Taken p w (w.runReader now k .look (w.state.look now.elapsed n))
  | abandoned {k n : Nat} (hk : w.readers k = some (.look n)) :
      Taken p w { w with readers := Function.update w.readers k none }
  | closed (now : Moment) : Taken p w (w.move now w.state.close.state w.state.close.effects)

/-- **What an action can do.** -/
theorem act_taken {p : Setup} {w w' : World} {t : Tick} (h : w.act p t = some w') :
    Taken p w w' := by
  obtain ⟨now, addition, action⟩ := t
  cases action with
  | hear i signal =>
      rw [act] at h
      dsimp only at h
      split at h
      · rename_i l hp hl
        obtain rfl := Option.some.inj h
        exact .heard now hp hl
      · exact nomatch h
  | run i =>
      obtain ⟨pt, hp, rfl⟩ := Option.map_eq_some_iff.1 h
      exact .ran now addition hp
  | call k =>
      rw [act] at h
      dsimp only at h
      split at h
      · rename_i hk
        obtain rfl := Option.some.inj h
        exact .called now hk
      · exact nomatch h
  | fill k =>
      rw [act] at h
      dsimp only at h
      split at h
      · rename_i hk
        obtain rfl := Option.some.inj h
        exact .filled now hk
      · exact nomatch h
  | look k =>
      rw [act] at h
      dsimp only at h
      split at h
      · rename_i hk
        obtain rfl := Option.some.inj h
        exact .looked now hk
      · exact nomatch h
  | abandon k =>
      rw [act] at h
      dsimp only at h
      split at h
      · rename_i hk
        obtain rfl := Option.some.inj h
        exact .abandoned hk
      · exact nomatch h
  | close =>
      obtain rfl := Option.some.inj h
      exact .closed now

/-! ## When an action is possible -/

section Possible

variable {p : Setup} {w : World} {now : Moment} {addition : Duration} {i k n : Nat}

theorem act_hear {signal : Signal} {l : Leg} (hp : w.points i = none)
    (hl : w.state.hear p addition i signal = some l) :
    w.act p ⟨now, addition, .hear i signal⟩ = some ((w.hears i signal).runLeg now i l) := by
  rw [act]
  dsimp only
  rw [hp, hl]

theorem act_run {pt : Point} (hp : w.points i = some pt) : w.act p ⟨now, addition, .run i⟩ =
    some (w.runLeg now i (w.state.leg p now addition i pt)) := by
  rw [act]
  dsimp only
  rw [hp]
  rfl

theorem act_call (hk : w.readers k = none) : w.act p ⟨now, addition, .call k⟩ =
    some (w.runReader now k .fill (w.state.moveOn p)) := by
  rw [act]
  dsimp only
  rw [hk]

theorem act_fill (hk : w.readers k = some (.fill n)) : w.act p ⟨now, addition, .fill k⟩ =
    some (w.runReader now k .look (w.state.claims p n)) := by
  rw [act]
  dsimp only
  rw [hk]

theorem act_look (hk : w.readers k = some (.look n)) : w.act p ⟨now, addition, .look k⟩ =
    some (w.runReader now k .look (w.state.look now.elapsed n)) := by
  rw [act]
  dsimp only
  rw [hk]

theorem act_abandon (hk : w.readers k = some (.look n)) : w.act p ⟨now, addition, .abandon k⟩ =
    some { w with readers := Function.update w.readers k none } := by
  rw [act]
  dsimp only
  rw [hk]

end Possible

/-! ## Runs -/

/-- A run of actions, if all of them are possible. -/
def exec (p : Setup) (w : World) : List Tick → Option World
  | [] => some w
  | t :: ts => (w.act p t).bind fun w => w.exec p ts

/-- Some action is taken. -/
def Step (p : Setup) (w w' : World) : Prop := ∃ t, w.act p t = some w'

/-- At most one call of `advance` is under way. -/
def Solo (w : World) : Prop :=
  ∀ j k, (w.readers j).isSome → (w.readers k).isSome → j = k

/-- Some action is taken, and no second call of `advance` begins. -/
def SoloStep (p : Setup) (w w' : World) : Prop := Step p w w' ∧ w'.Solo

theorem Step.taken {p : Setup} {w w' : World} (h : Step p w w') : Taken p w w' := by
  obtain ⟨t, ht⟩ := h
  exact act_taken ht

/-- A world that came about from a provider that was just created. -/
def Reachable (p : Setup) (opened : Move) (w : World) : Prop :=
  ∃ now, Relation.ReflTransGen (Step p) (start now opened) w

/-- A world that came about while at most one call of `advance` was under way at any time. -/
def SoloReachable (p : Setup) (opened : Move) (w : World) : Prop :=
  ∃ now, Relation.ReflTransGen (SoloStep p) (start now opened) w

theorem SoloReachable.reachable {p : Setup} {opened : Move} {w : World}
    (h : SoloReachable p opened w) : Reachable p opened w := by
  obtain ⟨now, hw⟩ := h
  exact ⟨now, Relation.ReflTransGen.mono (fun _ _ h => h.1) _ _ hw⟩

theorem SoloReachable.trans {p : Setup} {opened : Move} {w w' : World}
    (h : SoloReachable p opened w) (hsteps : Relation.ReflTransGen (SoloStep p) w w') :
    SoloReachable p opened w' := by
  obtain ⟨now, hw⟩ := h
  exact ⟨now, hw.trans hsteps⟩

/-- **What holds at the start and survives every action holds of every reachable world.** -/
theorem Reachable.keeps {p : Setup} {opened : Move} {w : World} {P : World → Prop}
    (h : Reachable p opened w) (hstart : ∀ now, P (start now opened))
    (hstep : ∀ {w w' : World}, Reachable p opened w → P w → Taken p w w' → P w') : P w := by
  obtain ⟨now, hw⟩ := h
  induction hw with
  | refl => exact hstart now
  | tail hpast hlast ih => exact hstep ⟨now, hpast⟩ ih hlast.taken

/-- The same for worlds with at most one call of `advance` under way. -/
theorem SoloReachable.keeps {p : Setup} {opened : Move} {w : World} {P : World → Prop}
    (h : SoloReachable p opened w) (hstart : ∀ now, P (start now opened))
    (hstep : ∀ {w w' : World}, SoloReachable p opened w → P w → Taken p w w' → w'.Solo → P w') :
    P w := by
  obtain ⟨now, hw⟩ := h
  induction hw with
  | refl => exact hstart now
  | tail hpast hlast ih => exact hstep ⟨now, hpast⟩ ih hlast.1.taken hlast.2

end World

end ResultChunks.Provider
