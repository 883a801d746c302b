import ResultChunks.Proofs.Provider.LegFits

/-!
# Slots

A claimed chunk takes a slot until it is consumed or fails. The provider keeps the number of slots in
a counter of its own; here they are counted afresh from the descriptors, so that the two can be
compared. Quiet legs and stored payloads leave the count alone, and a chunk that fails or is consumed
gives back one slot.
-/

namespace ResultChunks

/-- A claimed chunk of this status takes a slot. -/
def ChunkStatus.occupies : ChunkStatus → Bool
  | .consumed | .failed => false
  | _ => true

theorem ChunkStatus.occupies_of_wantsLink {st : ChunkStatus} (h : st.wantsLink = true) :
    st.occupies = true := by
  cases st <;> first | rfl | exact absurd h nofun

namespace Provider

/-- The claimed chunks that were neither consumed nor failed. -/
def State.occupied (s : State) : Nat :=
  (s.store.chunks.take s.next).countP fun d => d.status.occupies

/-- Counting goes by the answers alone. -/
theorem countP_take_congr {α : Type} {f : α → Bool} {l l' : List α} (n : Nat)
    (hlen : l'.length = l.length)
    (h : ∀ {j : Nat} {a : α}, l[j]? = some a → ∃ a', l'[j]? = some a' ∧ f a' = f a) :
    (l'.take n).countP f = (l.take n).countP f := by
  have hmap : l'.map f = l.map f := by
    apply List.ext_getElem?
    intro j
    rw [List.getElem?_map, List.getElem?_map]
    cases hl : l[j]? with
    | none =>
        have hj := List.getElem?_eq_none_iff.1 hl
        rw [List.getElem?_eq_none (by omega)]
    | some a =>
        obtain ⟨a', ha', hf⟩ := h hl
        rw [ha']
        exact congrArg some hf
  have key : ∀ m : List α, (m.take n).countP f = ((m.map f).take n).countP id := by
    intro m
    rw [← List.map_take, List.countP_map]
    rfl
  rw [key, key, hmap]

namespace State

variable {s s' : State} {i : Nat} {d d' : Descriptor}

/-- **A quiet leg takes and gives no slot.** -/
theorem occupied_quiet (h : Quiet i s s') : s'.occupied = s.occupied := by
  have hn : s'.next = s.next := by
    unfold next
    rcases h.tasks with ht | ⟨phase, _, ht⟩ <;> rw [ht]
    rw [List.length_set]
  unfold occupied
  rw [hn]
  refine countP_take_congr _ h.size ?_
  intro j dj hj
  by_cases hji : j = i
  · subst hji
    obtain ⟨o, st, h1, _, h3⟩ := h.own hj
    refine ⟨_, h1, ?_⟩
    -- the status changes only among those of a chunk at work, which all take a slot
    rcases h3 with rfl | ⟨hw, hw'⟩
    · rfl
    · change st.occupies = dj.status.occupies
      rw [ChunkStatus.occupies_of_wantsLink hw, ChunkStatus.occupies_of_wantsLink hw']
  · obtain ⟨o, h1, _⟩ := h.others hji hj
    exact ⟨_, h1, rfl⟩

/-- The count after one descriptor was replaced. -/
theorem countP_take_set {chunks : List Descriptor} {n : Nat} (hi : i < n)
    (hd : chunks[i]? = some d) (d' : Descriptor) :
    ((chunks.set i d').take n).countP (fun d => d.status.occupies) +
        (if d.status.occupies then 1 else 0) =
      (chunks.take n).countP (fun d => d.status.occupies) +
        (if d'.status.occupies then 1 else 0) := by
  have hlt : i < chunks.length := (List.getElem?_eq_some_iff.1 hd).1
  have htake : i < (chunks.take n).length := by rw [List.length_take]; omega
  have hget : (chunks.take n)[i] = d := by
    rw [List.getElem_take]
    exact (List.getElem?_eq_some_iff.1 hd).2
  have hmem : d ∈ chunks.take n := by rw [← hget]; exact List.getElem_mem htake
  rw [List.take_set, List.countP_set htake, hget]
  -- `countP_set` subtracts the old descriptor, so that must have been counted
  by_cases hocc : d.status.occupies = true
  · have hpos : 0 < (chunks.take n).countP fun d => d.status.occupies :=
      List.countP_pos_iff.2 ⟨d, hmem, hocc⟩
    rw [if_pos hocc]
    omega
  · rw [if_neg hocc]
    omega

/-- A claimed chunk that takes a slot is counted. -/
theorem occupied_pos (hi : i < s.next) (hd : s.store.chunks[i]? = some d)
    (hocc : d.status.occupies = true) : 0 < s.occupied := by
  have hlt := Store.lt_of_chunk hd
  refine List.countP_pos_iff.2 ⟨d, ?_, hocc⟩
  refine List.mem_of_getElem? (i := i) ?_
  rw [List.getElem?_take_of_lt hi]
  exact hd

theorem next_endTask (s : State) (i : Nat) (d : Descriptor) : (s.endTask i d).next = s.next := by
  unfold next endTask
  rw [List.length_set]

/-- A stored payload keeps the slot of its chunk. -/
theorem occupied_stored (hi : i < s.next) (hd : s.store.chunks[i]? = some d)
    (hocc : d.status.occupies = true) (n : Nat) (dl : Download) :
    (s.stored i d n dl).occupied = s.occupied := by
  have h := countP_take_set hi hd { d.countAttempts n with
    status := .downloaded, batches := some dl.batches, error := none }
  rw [if_pos hocc, if_pos (by rfl)] at h
  unfold occupied
  rw [show (s.stored i d n dl).next = s.next from next_endTask s i { d.countAttempts n with
    status := .downloaded, batches := some dl.batches, error := none }]
  exact Nat.add_right_cancel h

/-- **A failed chunk gives back one slot.** -/
theorem occupied_failed (hi : i < s.next) (hd : s.store.chunks[i]? = some d)
    (hocc : d.status.occupies = true) (n : Nat) (e : FetchError) :
    (s.failed i d n e).occupied + 1 = s.occupied := by
  have h := countP_take_set hi hd { d.countAttempts n with
    status := .failed, batches := none, error := some e }
  rw [if_pos hocc, if_neg nofun] at h
  unfold occupied
  rw [show (s.failed i d n e).next = s.next from next_endTask s i { d.countAttempts n with
    status := .failed, batches := none, error := some e }]
  exact h

/-- **A consumed chunk gives back one slot.** -/
theorem occupied_consumed (hi : i < s.next) (hd : s.store.chunks[i]? = some d)
    (hocc : d.status.occupies = true) (d' : Descriptor) (hs : d'.status = .consumed) :
    State.occupied { s with store := ⟨s.store.chunks.set i d'⟩ } + 1 = s.occupied := by
  have h := countP_take_set hi hd d'
  rw [if_pos hocc, if_neg (by rw [hs]; exact nofun)] at h
  exact h

/-- A claim takes one slot. -/
theorem occupied_claim {p : Setup} (hd : s.store.chunks[s.next]? = some d)
    (hocc : d.status.occupies = true) : (s.claim p).state.occupied = s.occupied + 1 := by
  have hlt := Store.lt_of_chunk hd
  have hnext : (s.claim p).state.next = s.next + 1 := by
    unfold next claim
    rw [List.length_append]
    rfl
  unfold occupied
  rw [hnext]
  change ((s.store.chunks.take (s.next + 1)).countP fun d => d.status.occupies) = _
  rw [List.take_add_one, hd, List.countP_append]
  congr 1
  change [d].countP (fun d => d.status.occupies) = 1
  rw [List.countP_singleton, if_pos hocc]

end State

end Provider

end ResultChunks
