import ResultChunks.Proofs.Provider.World

/-!
# Runs

A run is a list of ticks, and `exec` takes them one after the other if all are possible. Every world
that a run leads to is reachable, so a run that is written down shows that some reachable world has
a property. Runs in which one reader makes all the calls are solo.

The runs written down in this library all start from the same small result of two chunks.
-/

namespace ResultChunks.Provider

/-- No reader but the first one acts. -/
def Action.isSolo : Action → Bool
  | .call k | .fill k | .look k | .abandon k => k == 0
  | _ => true

namespace World

variable {p : Setup} {opened : Move} {w w' : World}

theorem exec_cons {t : Tick} {ts : List Tick} (h : w.exec p (t :: ts) = some w') :
    ∃ v, w.act p t = some v ∧ v.exec p ts = some w' := by
  rw [exec] at h
  exact Option.bind_eq_some_iff.1 h

theorem steps_of_exec {ts : List Tick} (h : w.exec p ts = some w') :
    Relation.ReflTransGen (Step p) w w' := by
  induction ts generalizing w with
  | nil => obtain rfl := Option.some.inj h; exact .refl
  | cons t ts ih =>
      obtain ⟨v, hv, hrest⟩ := exec_cons h
      exact .head ⟨t, hv⟩ (ih hrest)

/-- No other reader has a call under way. -/
def Alone (r : Nat) (w : World) : Prop := ∀ k, k ≠ r → w.readers k = none

theorem Alone.solo {r : Nat} (h : w.Alone r) : w.Solo := by
  -- whoever has a call under way is the reader `r`
  have key : ∀ k, (w.readers k).isSome → k = r := by
    intro k hk
    by_contra hne
    rw [h k hne] at hk
    exact nomatch hk
  intro j k hj hk
  rw [key j hj, key k hk]

theorem alone_update {r : Nat} {f : Nat → Option Reader} (h : ∀ k, k ≠ r → f k = none)
    (reader : Option Reader) : ∀ k, k ≠ r → Function.update f r reader k = none := by
  intro k hk
  rw [Function.update_of_ne hk]
  exact h k hk

theorem Alone.runReader {r : Nat} (h : w.Alone r) (now : Moment) (wait : Nat → Reader)
    (x : State × List Effect × Progress) : (w.runReader now r wait x).Alone r := by
  obtain ⟨s, effects, _ | _⟩ := x
  · exact alone_update h _
  · exact alone_update h _

theorem Alone.act {t : Tick} (h : w.Alone 0) (ht : t.action.isSolo = true)
    (hact : w.act p t = some w') : w'.Alone 0 := by
  obtain ⟨now, addition, action⟩ := t
  unfold World.act at hact
  cases action with
  | hear i signal =>
      dsimp only at hact
      split at hact
      · obtain rfl := Option.some.inj hact; exact h
      · exact nomatch hact
  | run i =>
      obtain ⟨pt, -, rfl⟩ := Option.map_eq_some_iff.1 hact
      exact h
  | call k =>
      obtain rfl : k = 0 := beq_iff_eq.1 ht
      dsimp only at hact
      split at hact
      · obtain rfl := Option.some.inj hact; exact h.runReader now _ _
      · exact nomatch hact
  | fill k =>
      obtain rfl : k = 0 := beq_iff_eq.1 ht
      dsimp only at hact
      split at hact
      · obtain rfl := Option.some.inj hact; exact h.runReader now _ _
      · exact nomatch hact
  | look k =>
      obtain rfl : k = 0 := beq_iff_eq.1 ht
      dsimp only at hact
      split at hact
      · obtain rfl := Option.some.inj hact; exact h.runReader now _ _
      · exact nomatch hact
  | abandon k =>
      obtain rfl : k = 0 := beq_iff_eq.1 ht
      dsimp only at hact
      split at hact
      · obtain rfl := Option.some.inj hact; exact alone_update h _
      · exact nomatch hact
  | close => obtain rfl := Option.some.inj hact; exact h

theorem soloSteps_of_exec {ts : List Tick} (hw : w.Alone 0)
    (hts : ts.all (fun t => t.action.isSolo) = true) (h : w.exec p ts = some w') :
    Relation.ReflTransGen (SoloStep p) w w' := by
  induction ts generalizing w with
  | nil => obtain rfl := Option.some.inj h; exact .refl
  | cons t ts ih =>
      obtain ⟨v, hv, hrest⟩ := exec_cons h
      rw [List.all_cons, Bool.and_eq_true] at hts
      have hv' := hw.act hts.1 hv
      exact .head ⟨⟨t, hv⟩, hv'.solo⟩ (ih hv' hts.2 hrest)

/-- **What a run shows, some reachable world has.** -/
theorem exists_reachable {P : World → Prop} [DecidablePred P] (now : Moment) (ts : List Tick)
    (h : ((start now opened).exec p ts).any (fun w => decide (P w)) = true) :
    ∃ w, Reachable p opened w ∧ P w := by
  obtain ⟨w, hw, hP⟩ := (Option.any_eq_true _ _).1 h
  exact ⟨w, ⟨now, steps_of_exec hw⟩, of_decide_eq_true hP⟩

/-- The same for runs of one reader. -/
theorem exists_soloReachable {P : World → Prop} [DecidablePred P] (now : Moment) (ts : List Tick)
    (hts : ts.all (fun t => t.action.isSolo) = true)
    (h : ((start now opened).exec p ts).any (fun w => decide (P w)) = true) :
    ∃ w, SoloReachable p opened w ∧ P w := by
  obtain ⟨w, hw, hP⟩ := (Option.any_eq_true _ _).1 h
  exact ⟨w, ⟨now, soloSteps_of_exec (fun _ _ => rfl) hts hw⟩, of_decide_eq_true hP⟩

end World

/-- One call of `advance` by the first reader, which looks for its chunk once. -/
def advancing (now : Moment) : List Tick :=
  [⟨now, .zero, .call 0⟩, ⟨now, .zero, .fill 0⟩, ⟨now, .zero, .look 0⟩]

theorem create_of_validate {m : Manifest} {config : FetchConfig} {method : Method}
    (hv : config.validate.isOk = true) : create m config method =
      .ok (((create m config method).toOption.getD default).1,
        ((create m config method).toOption.getD default).2) := by
  have hok : (create m config method).isOk = true := by
    rw [create]
    cases hc : config.validate with
    | ok u => rfl
    | error e => rw [hc] at hv; exact nomatch hv
  cases hc : create m config method with
  | ok r => rfl
  | error e => rw [hc] at hok; exact nomatch hok

/-! ## A small result -/

namespace Sample

/-- A link that can be used until a second of the calendar. -/
def linkUntil (secs : Int) (i : Nat) : Link :=
  { url := "https://storage/chunk", chunkIndex := i, rowOffset := 2 * i, rowCount := 2
    byteCount := 16, expiration := .ofSecs secs, headers := [], nextChunk := none }

/-- Two chunks of two rows. -/
def manifest (link : Nat → Option Link) : Manifest :=
  ⟨4, .none, .arrowStream, [⟨0, 0, 2, 16, link 0⟩, ⟨1, 2, 2, 16, link 1⟩]⟩

/-- Links for both chunks. -/
def bothLinks (i : Nat) : Option Link := some (linkUntil 100 i)

/-- Both links have expired. -/
def staleLinks (i : Nat) : Option Link := some (linkUntil 0 i)

/-- Both chunks may be held at a time. -/
def config : FetchConfig := { maxParallel := 2 }

/-- The provider for the two chunks. -/
def opened (link : Nat → Option Link) : Setup × Move :=
  (create (manifest link) config .get).toOption.getD default

theorem create_opened (link : Nat → Option Link) :
    create (manifest link) config .get = .ok ((opened link).1, (opened link).2) :=
  create_of_validate (by decide +kernel)

/-- The payload of a chunk. -/
def payload (i : Nat) : Download := ⟨[⟨[], 2⟩], i⟩

/-- The start of the calendar. -/
def dawn : Moment := ⟨.ofSecs 0, .zero⟩

/-- An action at the start of the calendar. -/
def tick (action : Action) : Tick := ⟨dawn, .zero, action⟩

/-- The task of a chunk hears an answer, and then runs a number of legs. -/
def stretch (i : Nat) (signal : Signal) (legs : Nat) : List Tick :=
  tick (.hear i signal) :: List.replicate legs (tick (.run i))

end Sample

end ResultChunks.Provider
