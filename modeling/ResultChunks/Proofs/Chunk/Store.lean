import ResultChunks.Chunk.Store

/-!
# What the operations of a store do

The index of a chunk is its position, so an operation on a chunk that is there replaces one element
of a list. A change of status succeeds exactly when `ChunkStatus.leadsTo` allows it, and its error
names the step that was refused.
-/

namespace ResultChunks

/-- Only a chunk at work takes the first two steps of its life, and it stays at work. -/
theorem ChunkStatus.wantsLink_of_leadsTo {st next : ChunkStatus} (h : st.leadsTo next = true)
    (hn : next = .linkResolved ∨ next = .downloading) :
    st.wantsLink = true ∧ next.wantsLink = true := by
  rcases hn with rfl | rfl <;> cases st <;> first | exact ⟨rfl, rfl⟩ | exact absurd h nofun

namespace Store

theorem get_eq_ok {s : Store} {i : Nat} {d : Descriptor} (h : s.chunks[i]? = some d) :
    s.get i = .ok d := by
  have h0 : ¬ ((i : Int) < 0) := by omega
  rw [get, if_neg h0, Int.toNat_natCast, h]

/-- A chunk that can be had is an element of the list. -/
theorem of_get_eq_ok {s : Store} {index : Int} {d : Descriptor} (h : s.get index = .ok d) :
    0 ≤ index ∧ s.chunks[index.toNat]? = some d := by
  unfold get at h
  split at h
  · simp at h
  · rename_i h0
    split at h
    · rename_i d' hd
      obtain rfl := Except.ok.inj h
      exact ⟨by omega, hd⟩
    · simp at h

theorem exists_chunk {s : Store} {i : Nat} (h : i < s.chunks.length) :
    ∃ d, s.chunks[i]? = some d := ⟨s.chunks[i], List.getElem?_eq_getElem h⟩

theorem lt_of_chunk {s : Store} {i : Nat} {d : Descriptor} (h : s.chunks[i]? = some d) :
    i < s.chunks.length := (List.getElem?_eq_some_iff.1 h).1

/-- **A change of status succeeds exactly when the life of a chunk allows it.** -/
theorem moveWith_eq {s : Store} {i : Nat} {d : Descriptor} (h : s.chunks[i]? = some d)
    (next : ChunkStatus) (f : Descriptor → Descriptor) :
    s.moveWith i next f =
      if d.status.leadsTo next then .ok ⟨s.chunks.set i (f { d with status := next })⟩
      else .error (.invalidState (.noTransition i d.status next)) := by
  rw [moveWith, get_eq_ok h]
  rfl

theorem move_eq {s : Store} {i : Nat} {d : Descriptor} (h : s.chunks[i]? = some d)
    {next : ChunkStatus} (hl : d.status.leadsTo next = true) :
    s.move i next = .ok ⟨s.chunks.set i { d with status := next }⟩ := by
  rw [move, moveWith_eq h, if_pos hl]
  rfl

theorem setBatches_eq {s : Store} {i : Nat} {d : Descriptor} (h : s.chunks[i]? = some d)
    (batches : List Batch) :
    s.setBatches i batches =
      if d.status.leadsTo .downloaded then
        .ok ⟨s.chunks.set i { d with status := .downloaded, batches := some batches, error := none }⟩
      else .error (.invalidState (.noTransition i d.status .downloaded)) := moveWith_eq h _ _

theorem setFailed_eq {s : Store} {i : Nat} {d : Descriptor} (h : s.chunks[i]? = some d)
    (error : FetchError) :
    s.setFailed i error =
      if d.status.leadsTo .failed then
        .ok ⟨s.chunks.set i { d with status := .failed, batches := none, error := some error }⟩
      else .error (.invalidState (.noTransition i d.status .failed)) := moveWith_eq h _ _

theorem change_eq {s : Store} {i : Nat} {d : Descriptor} (h : s.chunks[i]? = some d)
    (f : Descriptor → Descriptor) : s.change i f = ⟨s.chunks.set i (f d)⟩ := by
  rw [change, get_eq_ok h]
  rfl

theorem release_downloaded {s : Store} {i : Nat} {d : Descriptor} (h : s.chunks[i]? = some d)
    (hs : d.status = .downloaded) :
    s.release i = .ok (d.batches.isSome,
      ⟨s.chunks.set i { d with status := .consumed, batches := none }⟩) := by
  have hl : d.status.leadsTo .consumed = true := by rw [hs]; rfl
  have hc : d.status ≠ .consumed := by rw [hs]; exact nofun
  rw [release, get_eq_ok h]
  change (if d.status = .consumed then _ else _) = _
  rw [if_neg hc, moveWith_eq h, if_pos hl]
  rfl

/-- A single change leaves the other chunks alone. -/
theorem chunk_set_ne {s : Store} {i j : Nat} (d : Descriptor) (h : j ≠ i) :
    (s.chunks.set i d)[j]? = s.chunks[j]? := List.getElem?_set_ne h.symm

theorem chunk_set_self {s : Store} {i : Nat} {d : Descriptor} (h : s.chunks[i]? = some d)
    (d' : Descriptor) : (s.chunks.set i d')[i]? = some d' :=
  List.getElem?_set_self (lt_of_chunk h)

/-- After one descriptor was replaced, each one is the new one or was there before. -/
theorem chunk_of_set {s : Store} {i j : Nat} {d' dj : Descriptor}
    (h : (s.chunks.set i d')[j]? = some dj) :
    (j = i ∧ dj = d') ∨ (j ≠ i ∧ s.chunks[j]? = some dj) := by
  rw [List.getElem?_set] at h
  split at h
  · rename_i hij
    split at h
    · exact Or.inl ⟨hij.symm, (Option.some.inj h).symm⟩
    · exact nomatch h
  · rename_i hij
    exact Or.inr ⟨Ne.symm hij, h⟩

/-! ## Links -/

/-- Chunks that could use a link got one of these for themselves, and nothing else changed. -/
structure Relinked (links : List Link) (s s' : Store) : Prop where
  /-- No chunk comes or goes. -/
  size : s'.chunks.length = s.chunks.length
  /-- A chunk keeps all but its link, and a new link names the chunk. -/
  chunk : ∀ {j : Nat} {d : Descriptor}, s.chunks[j]? = some d →
    ∃ o, s'.chunks[j]? = some { d with link := o }
      ∧ (o = d.link ∨ (d.status.wantsLink = true ∧ ∃ l ∈ links, o = some l ∧ l.chunkIndex = j))

namespace Relinked

theorem refl (links : List Link) (s : Store) : Relinked links s s :=
  ⟨rfl, fun {_ d} h => ⟨d.link, h, Or.inl rfl⟩⟩

theorem trans {links : List Link} {s t u : Store} (h₁ : Relinked links s t)
    (h₂ : Relinked links t u) : Relinked links s u := by
  refine ⟨h₂.size.trans h₁.size, ?_⟩
  intro j d hd
  obtain ⟨o, ho, hold⟩ := h₁.chunk hd
  obtain ⟨o', ho', hold'⟩ := h₂.chunk ho
  refine ⟨o', ho', ?_⟩
  rcases hold' with rfl | hnew
  · exact hold
  · exact Or.inr hnew

theorem mono {links more : List Link} {s s' : Store} (h : Relinked links s s')
    (hsub : ∀ l ∈ links, l ∈ more) : Relinked more s s' := by
  refine ⟨h.size, ?_⟩
  intro j d hd
  obtain ⟨o, ho, hold⟩ := h.chunk hd
  refine ⟨o, ho, ?_⟩
  rcases hold with h0 | ⟨hw, l, hl, h1, h2⟩
  · exact Or.inl h0
  · exact Or.inr ⟨hw, l, hsub l hl, h1, h2⟩

/-- A chunk that has a link keeps one. -/
theorem link_isSome {links : List Link} {s s' : Store} (h : Relinked links s s') {j : Nat}
    {d d' : Descriptor} (hd : s.chunks[j]? = some d) (hd' : s'.chunks[j]? = some d')
    (hl : d.link.isSome) : d'.link.isSome := by
  obtain ⟨o, ho, hold⟩ := h.chunk hd
  rw [hd'] at ho
  obtain rfl := Option.some.inj ho
  rcases hold with rfl | ⟨_, l, _, rfl, _⟩
  · exact hl
  · rfl

end Relinked

/-- A link goes to the chunk it names, or nowhere. -/
theorem setLink_relinked {s s' : Store} {l : Link} {stored : Bool}
    (h : s.setLink l = .ok (stored, s')) : Relinked [l] s s' := by
  unfold setLink at h
  cases hg : s.get l.chunkIndex with
  | error e => rw [hg] at h; exact nomatch h
  | ok d =>
      rw [hg] at h
      obtain ⟨h0, hd⟩ := of_get_eq_ok hg
      change (if d.status.wantsLink then _ else _) = _ at h
      split at h
      · rename_i hw
        obtain ⟨-, rfl⟩ := Prod.mk.inj (Except.ok.inj h)
        refine ⟨List.length_set, ?_⟩
        intro j d' hd'
        by_cases hj : j = l.chunkIndex.toNat
        · subst hj
          rw [hd] at hd'
          obtain rfl := Option.some.inj hd'
          refine ⟨some l, chunk_set_self hd _, Or.inr ⟨hw, l, List.mem_singleton_self l, rfl, ?_⟩⟩
          omega
        · exact ⟨d'.link, by rw [put, chunk_set_ne _ hj]; exact hd', Or.inl rfl⟩
      · obtain ⟨-, rfl⟩ := Prod.mk.inj (Except.ok.inj h)
        exact Relinked.refl _ _

end Store

end ResultChunks
