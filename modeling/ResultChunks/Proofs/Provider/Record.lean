import ResultChunks.Proofs.Provider.Standing
import ResultChunks.Proofs.Provider.World

/-!
# What is on record

The log of a world is read through a few views: what the task of a chunk heard, whether it is broken
by that, which payloads it got, and what the calls of `advance` returned. Each action adds to the
views of one chunk or of the readers, and leaves the others alone.
-/

namespace ResultChunks.Provider

/-- What the task of a chunk heard, in order. -/
def heardBy (i : Nat) (log : List Event) : List Signal :=
  log.filterMap fun
    | .heard j signal => if j = i then some signal else none
    | _ => none

/-- What the calls of `advance` returned, in order. -/
def answers (log : List Event) : List Answer :=
  log.filterMap fun
    | .returned _ answer => some answer
    | _ => none

/-- The chunks that were handed out, in order. -/
def handles (log : List Event) : List Handle :=
  (answers log).filterMap fun
    | .ok handle => handle
    | .error _ => none

/-- A task is broken when the last answer to its questions for links was a failure. -/
def brokenBy (signals : List Signal) : Bool := signals.foldl Signal.breaks false

/-- The payloads among what a task heard. -/
def payloadsOf (signals : List Signal) : List Download := signals.flatMap Signal.brings

namespace World

/-- Is the task of a chunk broken? -/
def broken (w : World) (i : Nat) : Bool := brokenBy (heardBy i w.log)

/-- The payloads that arrived for a chunk. -/
def payloads (w : World) (i : Nat) : List Download := payloadsOf (heardBy i w.log)

end World

@[simp] theorem heardBy_append (i : Nat) (log more : List Event) :
    heardBy i (log ++ more) = heardBy i log ++ heardBy i more := List.filterMap_append

@[simp] theorem heardBy_did (i : Nat) (now : Moment) (effects : List Effect) :
    heardBy i (effects.map (.did now)) = [] := by
  rw [heardBy, List.filterMap_map]
  exact List.filterMap_eq_nil_iff.2 fun _ _ => rfl

@[simp] theorem heardBy_returned (i k : Nat) (answer : Answer) :
    heardBy i [.returned k answer] = [] := rfl

theorem heardBy_self (i : Nat) (signal : Signal) : heardBy i [.heard i signal] = [signal] := by
  simp [heardBy]

theorem heardBy_ne {i j : Nat} (h : j ≠ i) (signal : Signal) :
    heardBy i [.heard j signal] = [] := by
  simp [heardBy, h]

@[simp] theorem brokenBy_append (signals : List Signal) (signal : Signal) :
    brokenBy (signals ++ [signal]) = signal.breaks (brokenBy signals) := by
  rw [brokenBy, List.foldl_append]
  rfl

@[simp] theorem payloadsOf_append (signals : List Signal) (signal : Signal) :
    payloadsOf (signals ++ [signal]) = payloadsOf signals ++ signal.brings := by
  rw [payloadsOf, List.flatMap_append, List.flatMap_singleton]
  rfl

@[simp] theorem answers_append (log more : List Event) :
    answers (log ++ more) = answers log ++ answers more := List.filterMap_append

@[simp] theorem answers_did (now : Moment) (effects : List Effect) :
    answers (effects.map (.did now)) = [] := by
  rw [answers, List.filterMap_map]
  exact List.filterMap_eq_nil_iff.2 fun _ _ => rfl

@[simp] theorem answers_heard (i : Nat) (signal : Signal) : answers [.heard i signal] = [] := rfl

@[simp] theorem answers_returned (k : Nat) (answer : Answer) :
    answers [.returned k answer] = [answer] := rfl

@[simp] theorem handles_did (now : Moment) (effects : List Effect) :
    handles (effects.map (.did now)) = [] := by
  rw [handles, answers_did]
  rfl

/-! ## What an action does to a world -/

namespace World

variable (w : World) (now : Moment) (i k : Nat)

@[simp] theorem state_runLeg (l : Leg) : (w.runLeg now i l).state = l.state := rfl

@[simp] theorem points_runLeg (l : Leg) :
    (w.runLeg now i l).points = Function.update w.points i l.next := rfl

@[simp] theorem log_runLeg (l : Leg) :
    (w.runLeg now i l).log = w.log ++ l.effects.map (.did now) := rfl

variable (wait : Nat → Reader) (r : State × List Effect × Progress)

@[simp] theorem state_runReader : (w.runReader now k wait r).state = r.1 := by
  obtain ⟨s, effects, _ | _⟩ := r <;> rfl

@[simp] theorem points_runReader : (w.runReader now k wait r).points = w.points := by
  obtain ⟨s, effects, _ | _⟩ := r <;> rfl

@[simp] theorem past_runReader : (w.runReader now k wait r).past = r.1 :: w.past := by
  obtain ⟨s, effects, _ | _⟩ := r <;> rfl

@[simp] theorem heardBy_runReader (i : Nat) :
    heardBy i (w.runReader now k wait r).log = heardBy i w.log := by
  obtain ⟨s, effects, _ | _⟩ := r
  · simp [runReader]
  · simp [runReader, move]

@[simp] theorem broken_runReader : (w.runReader now k wait r).broken = w.broken :=
  funext fun j => congrArg brokenBy (heardBy_runReader w now k wait r j)

@[simp] theorem payloads_runReader : (w.runReader now k wait r).payloads = w.payloads :=
  funext fun j => congrArg payloadsOf (heardBy_runReader w now k wait r j)

variable (l : Leg)

theorem heardBy_runLeg (j : Nat) : heardBy j (w.runLeg now i l).log = heardBy j w.log := by
  rw [log_runLeg, heardBy_append, heardBy_did, List.append_nil]

@[simp] theorem broken_runLeg : (w.runLeg now i l).broken = w.broken :=
  funext fun j => congrArg brokenBy (heardBy_runLeg w now i l j)

@[simp] theorem payloads_runLeg : (w.runLeg now i l).payloads = w.payloads :=
  funext fun j => congrArg payloadsOf (heardBy_runLeg w now i l j)

@[simp] theorem answers_runLeg : answers (w.runLeg now i l).log = answers w.log := by
  rw [log_runLeg, answers_append, answers_did, List.append_nil]

@[simp] theorem handles_runLeg : handles (w.runLeg now i l).log = handles w.log := by
  rw [handles, answers_runLeg]
  rfl

@[simp] theorem answers_move (s : State) (effects : List Effect) :
    answers (w.move now s effects).log = answers w.log := by
  change answers (w.log ++ effects.map (.did now)) = _
  rw [answers_append, answers_did, List.append_nil]

/-- A call that is over is on record. -/
theorem answers_done (s : State) (effects : List Effect) (answer : Answer) :
    answers (w.runReader now k wait (s, effects, .done answer)).log =
      answers w.log ++ [answer] := by
  change answers (w.log ++ effects.map (.did now) ++ [Event.returned k answer]) = _
  rw [answers_append, answers_append, answers_did, List.append_nil, answers_returned]

theorem answers_waiting (s : State) (effects : List Effect) (next : Nat) :
    answers (w.runReader now k wait (s, effects, .waiting next)).log = answers w.log :=
  answers_move w now s effects

variable (signal : Signal)

@[simp] theorem answers_hears : answers (w.hears i signal).log = answers w.log := by
  rw [hears, answers_append, answers_heard, List.append_nil]

@[simp] theorem handles_hears : handles (w.hears i signal).log = handles w.log := by
  rw [handles, answers_hears]
  rfl

@[simp] theorem broken_hears : (w.hears i signal).broken i = signal.breaks (w.broken i) := by
  rw [broken, hears, heardBy_append, heardBy_self, brokenBy_append]
  rfl

@[simp] theorem payloads_hears : (w.hears i signal).payloads i = w.payloads i ++ signal.brings := by
  rw [payloads, hears, heardBy_append, heardBy_self, payloadsOf_append]
  rfl

theorem heardBy_hears_ne {i j : Nat} (h : j ≠ i) :
    heardBy j (w.hears i signal).log = heardBy j w.log := by
  rw [hears, heardBy_append, heardBy_ne h.symm, List.append_nil]

theorem broken_hears_ne {i j : Nat} (h : j ≠ i) : (w.hears i signal).broken j = w.broken j :=
  congrArg brokenBy (heardBy_hears_ne w signal h)

theorem payloads_hears_ne {i j : Nat} (h : j ≠ i) :
    (w.hears i signal).payloads j = w.payloads j :=
  congrArg payloadsOf (heardBy_hears_ne w signal h)

variable (opened : Move)

@[simp] theorem broken_start : (start now opened).broken = fun _ => false :=
  funext fun i => congrArg brokenBy (heardBy_did i now opened.effects)

@[simp] theorem payloads_start : (start now opened).payloads = fun _ => [] :=
  funext fun i => congrArg payloadsOf (heardBy_did i now opened.effects)

end World

end ResultChunks.Provider
