import ResultChunks.Error

/-!
# Scripted services

A script says in advance how a service answers: for each key a list of cues, one for each call with
that key. A cue is a delay and then an error, content, or the service's usual content. A call beyond
the list is answered at once with the usual content.
-/

namespace ResultChunks.Rehearsal

/-- How one call is answered. Without content the answer is the usual one. -/
structure Cue (α : Type) where
  /-- The delay before the answer, in milliseconds. -/
  delay : Nat := 0
  result : Except FetchError (Option α) := .ok none

/-- The cues of each key that were not used yet. -/
structure Script (α : Type) where
  cues : List (Int × List (Cue α)) := []

namespace Script

/-- The next cue for a key, and the script without it. -/
def take {α : Type} (s : Script α) (key : Int) : Cue α × Script α :=
  match s.cues.lookup key with
  | some (c :: rest) =>
    (c, ⟨s.cues.map fun e => if e.1 = key then (e.1, rest) else e⟩)
  | _ => ({}, s)

end Script

/-- The answer of a cue, given the usual one. -/
def Cue.answer {α : Type} (c : Cue α) (usual : Except FetchError α) : Except FetchError α :=
  match c.result with
  | .error e => .error e
  | .ok (some content) => .ok content
  | .ok none => usual

end ResultChunks.Rehearsal
