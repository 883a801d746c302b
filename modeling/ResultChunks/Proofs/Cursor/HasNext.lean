import ResultChunks.Proofs.Cursor.Agreement
import ResultChunks.Proofs.Cursor.Course
import ResultChunks.Proofs.Provider.HasNext

/-!
# No row comes after `hasNext` said no

A cursor says that no row remains when it is closed, or when neither its batch nor a batch that waits
has one and its source has nothing more to give. So no row is to come that a call could find, unless
the provider hands out another chunk. It does not: once it says that there is no next chunk, that
stays so, and no call that begins later gets one.

The other direction is weaker, since a chunk may fail or turn out to be without rows. But as long as
the provider is open, a next chunk means that the next call to come back does not say that there are
no more.
-/

namespace ResultChunks.Cursor

open Provider

variable {c d : Cursor} {as left : List Answer} {sights : List Sight} {chunks : Bool}

theorem chunksIn_eq_nil (h : ∀ a ∈ as, ∀ g, a ≠ .ok (some g)) : chunksIn as = [] := by
  rw [chunksIn, List.filterMap_eq_nil_iff]
  intro a ha
  cases a with
  | error e => rfl
  | ok chunk =>
    cases chunk with
    | none => rfl
    | some g => exact absurd rfl (h _ ha g)

/-- Where an open cursor says that no row remains, none is to come, and its source has none. -/
theorem left_of_not_hasNext (h : c.hasNext chunks = false) (hopen : c.closed = false) :
    c.left [] = [] ∧ (c.source = .chunks → chunks = false) := by
  rw [hasNext, if_neg (by simp [hopen])] at h
  split at h
  · cases h
  · rename_i hnone
    rw [Bool.or_eq_true, not_or, Bool.not_eq_true] at hnone
    obtain ⟨hin, hpending⟩ := hnone
    have hahead : c.ahead = [] := by
      rw [ahead_of_not_inBatch hin, Batch.rowsOf_eq_nil_iff]
      simpa using hpending
    rw [Cursor.left, hahead, List.nil_append]
    cases hsource : c.source with
    | chunks =>
      rw [hsource] at h
      exact ⟨rfl, fun _ => h⟩
    | inline r =>
      rw [hsource] at h
      have hbatches : r.batches = [] := by simpa [InlineResult.hasMore] using h
      refine ⟨?_, fun hchunks => by cases hchunks⟩
      rw [Source.rows, hbatches]
      rfl
    | empty => exact ⟨rfl, fun hchunks => by cases hchunks⟩

/-- **No later call finds a row there**, if the provider hands out no more chunks. -/
theorem no_row_later (h : c.hasNext chunks = false)
    (hnone : c.source = .chunks → chunks = false → chunksIn as = [])
    (hcourse : Course c as sights d left) : ∀ s ∈ sights, s.result ≠ .ok true := by
  intro s hs hfound
  by_cases hclosed : c.closed = true
  · have herror := (hcourse.of_closed hclosed).2 s hs
    rw [hfound] at herror
    cases herror
  · obtain ⟨hleft, hsource⟩ := left_of_not_hasNext h (by simpa using hclosed)
    have hnothing : c.left (chunksIn as) = [] := by
      by_cases hchunks : c.source = .chunks
      · rw [hnone hchunks (hsource hchunks)]
        exact hleft
      · rw [← hleft, Cursor.left, Cursor.left]
        cases hother : c.source with
        | chunks => exact absurd hother hchunks
        | inline r => rfl
        | empty => rfl
    have hprefix := hcourse.found_prefix
    rw [hnothing, List.prefix_nil] at hprefix
    exact hcourse.row_of_found s hs hfound (List.flatMap_eq_nil_iff.1 hprefix s hs)

/-- **`hasNext` never says no too early, and a provider never says yes too late.** A cursor without a
provider that says so finds no row any more, in whatever way it is used. With a provider and any
number of readers:

* once the provider says that there is no next chunk, it always does, and a call that begins then
  comes back at once without a chunk;
* as long as it is open, a next chunk means that the next call to come back does not return the end;
* a cursor that says that no row remains while its reader has no call under way finds none any more,
  whatever its calls are given of what the provider returns to that reader. -/
theorem hasNext_never_misleads :
    (∀ {c d : Cursor} {as left : List Answer} {sights : List Sight} {chunks : Bool},
        c.source ≠ .chunks → c.hasNext chunks = false → Course c as sights d left →
        ∀ s ∈ sights, s.result ≠ .ok true) ∧
      ∀ {m : Manifest} {config : FetchConfig} {method : Method} {p : Setup} {opened : Move}
        {w : World}, create m config method = .ok (p, opened) → World.Reachable p opened w →
        (w.state.hasNext p = false → ∀ v, Relation.ReflTransGen (World.Step p) w v →
          v.state.hasNext p = false ∧
            ∀ {v' : World} {k : Nat} {now : Moment} {addition : Duration},
              v.act p ⟨now, addition, .call k⟩ = some v' → v'.readers k = none ∧
                ∃ a, answers v'.log = answers v.log ++ [a] ∧ ∀ g, a ≠ .ok (some g)) ∧
        (w.state.hasNext p = true → ∀ v, Relation.ReflTransGen (World.Step p) w v →
          v.state.closed = false → answers v.log = answers w.log ∨
            ∃ a more, answers v.log = answers w.log ++ a :: more ∧ a ≠ .ok none) ∧
        ∀ {c d : Cursor} {k : Nat} {as bs left : List Answer} {sights : List Sight} {v : World},
          c.hasNext (w.state.hasNext p) = false → w.readers k = none →
          Relation.ReflTransGen (World.Step p) w v →
          answersTo k v.log = answersTo k w.log ++ as → bs ⊆ as → Course c bs sights d left →
          ∀ s ∈ sights, s.result ≠ .ok true := by
  refine ⟨?_, ?_⟩
  · intro c d as left sights chunks hsource hnext hcourse
    exact no_row_later hnext (fun hchunks => absurd hchunks hsource) hcourse
  · intro m config method p opened w hcreate hw
    refine ⟨?_, ?_, ?_⟩
    · intro hnext v hsteps
      have hv := World.hasNext_later hcreate hw hnext hsteps
      exact ⟨hv, fun hact => World.call_without_next hcreate (hw.trans hsteps) hv hact⟩
    · intro hnext v hsteps hopen
      exact (World.next_answer hcreate hw hnext hsteps hopen).imp (fun h => h.1) id
    · intro c d k as bs left sights v hnext hidle hsteps has hsub hcourse
      refine no_row_later hnext (fun _ hdone => chunksIn_eq_nil fun a ha => ?_) hcourse
      obtain ⟨-, as', has', hnone⟩ := World.no_chunk_later hcreate hw hdone hidle hsteps
      obtain rfl := List.append_cancel_left (has.symm.trans has')
      exact hnone a (hsub ha)

/-- Two chunks are read to the end. At the start there is a next chunk, and the first call to come
back does not return the end. After the end there is none, and no cursor finds a row. -/
theorem hasNext_never_misleads_two_chunks :
    ∃ w v, World.Reachable (Sample.opened Sample.bothLinks).1 (Sample.opened Sample.bothLinks).2 w ∧
      (∃ a more, answers v.log = answers w.log ++ a :: more ∧ a ≠ .ok none) ∧
      (∀ u, Relation.ReflTransGen (World.Step (Sample.opened Sample.bothLinks).1) v u →
        u.state.hasNext (Sample.opened Sample.bothLinks).1 = false) ∧
      ∀ {d : Cursor} {as bs left : List Answer} {sights : List Sight} {u : World},
        Relation.ReflTransGen (World.Step (Sample.opened Sample.bothLinks).1) v u →
        answersTo 0 u.log = answersTo 0 v.log ++ as → bs ⊆ as →
        Course { source := .chunks, schema := none } bs sights d left →
        ∀ s ∈ sights, s.result ≠ .ok true := by
  obtain ⟨w, hw, hbefore, hnone, hlater⟩ : ∃ w,
      World.Reachable (Sample.opened Sample.bothLinks).1 (Sample.opened Sample.bothLinks).2 w ∧
        w.state.hasNext (Sample.opened Sample.bothLinks).1 = true ∧ answers w.log = [] ∧
        ((w.exec (Sample.opened Sample.bothLinks).1 (Sample.readBoth [⟨[], 2⟩])).any fun v =>
          decide (v.state.closed = false ∧ answers v.log = Sample.bothGiven [⟨[], 2⟩] ∧
            v.state.hasNext (Sample.opened Sample.bothLinks).1 = false ∧
            v.readers 0 = none)) = true :=
    World.exists_reachable Sample.dawn [] (by decide +kernel)
  obtain ⟨v, hrun, hv⟩ := (Option.any_eq_true _ _).1 hlater
  obtain ⟨hopen, hgiven, hafter, hidle⟩ := of_decide_eq_true hv
  have hsteps := World.steps_of_exec hrun
  have hcreate := Sample.create_opened Sample.bothLinks
  obtain ⟨-, hnext, -⟩ := hasNext_never_misleads.2 hcreate hw
  obtain ⟨hover, -, hcursor⟩ := hasNext_never_misleads.2 hcreate (hw.trans hsteps)
  refine ⟨w, v, hw, ?_, fun u hu => (hover hafter u hu).1, ?_⟩
  · rcases hnext hbefore v hsteps hopen with hsame | hmore
    · rw [hgiven, hnone] at hsame
      cases hsame
    · exact hmore
  · intro d as bs left sights u hu has hsub hcourse
    exact hcursor (by rw [hafter]; rfl) hidle hu has hsub hcourse

end ResultChunks.Cursor
