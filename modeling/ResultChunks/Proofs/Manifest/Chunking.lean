import ResultChunks.Proofs.Manifest.Geometry

/-!
# Which chunkings are accepted

A list of chunks cuts a range of rows in some order. `Chained` says of an ordered list, without
reference to any check, that it does so without gaps: indices count from zero, no size is negative,
each chunk starts where the one before it ends, and the rows add up. Chunks are accepted exactly if
some order of them is chained. There is only one such order, since indices determine it, so the order
in which the chunks were given never matters.
-/

namespace ResultChunks.Manifest

/-- The chunks cut a number of rows, in this order. -/
structure Chained (total : Int) (cs : List ChunkMeta) : Prop where
  /-- Indices count from zero. -/
  index : ∀ (i : Nat) (c : ChunkMeta), cs[i]? = some c → c.index = i
  /-- No size is negative. -/
  sizes : ∀ c ∈ cs, 0 ≤ c.rowCount ∧ 0 ≤ c.byteCount
  /-- A chunk starts where the one before it ends. -/
  adjoin : ∀ (i : Nat) (c d : ChunkMeta), cs[i]? = some c → cs[i + 1]? = some d →
    d.rowOffset = c.rowOffset + c.rowCount
  /-- The rows add up. -/
  total : (cs.map ChunkMeta.rowCount).sum = total

/-- The row is one of the chunk's. -/
def Holds (c : ChunkMeta) (row : Int) : Prop :=
  c.rowOffset ≤ row ∧ row < c.rowOffset + c.rowCount

variable {total : Int} {codec : Codec} {format : Format} {cs : List ChunkMeta} {m : Manifest}

/-! ## Chained chunks are those that abut -/

theorem abut_of_adjoin {position : Nat} {start : Int}
    (index : ∀ (i : Nat) (c : ChunkMeta), cs[i]? = some c → c.index = position + i)
    (sizes : ∀ c ∈ cs, 0 ≤ c.rowCount ∧ 0 ≤ c.byteCount)
    (first : ∀ c, cs.head? = some c → c.rowOffset = start)
    (adjoin : ∀ (i : Nat) (c d : ChunkMeta), cs[i]? = some c → cs[i + 1]? = some d →
      d.rowOffset = c.rowOffset + c.rowCount) : Abut position start cs := by
  induction cs generalizing position start with
  | nil => exact .nil _ _
  | cons c cs ih =>
      obtain ⟨hrows, hbytes⟩ := sizes c (List.mem_cons_self ..)
      have hindex := index 0 c rfl
      have hstart := first c rfl
      refine .cons (by simpa using hindex) hrows hbytes hstart (ih ?_ ?_ ?_ ?_)
      · intro i d hd
        have hnext := index (i + 1) d hd
        push_cast at hnext ⊢
        omega
      · exact fun d hd => sizes d (List.mem_cons_of_mem _ hd)
      · intro d hd
        rw [adjoin 0 c d rfl (by rw [← hd, List.head?_eq_getElem?]; rfl), hstart]
      · exact fun i d e hd he => adjoin (i + 1) d e hd he

theorem chained_iff : Chained total cs ↔ Abut 0 (firstRow cs) cs ∧ rowsOf cs = total := by
  constructor
  · intro h
    refine ⟨abut_of_adjoin ?_ h.sizes ?_ h.adjoin, h.total⟩
    · intro i c hc
      rw [h.index i c hc]
      omega
    · intro c hc
      rw [firstRow, hc]
      rfl
  · rintro ⟨habut, htotal⟩
    refine ⟨?_, fun c hc => habut.size_nonneg hc, fun i c d => habut.next_start, htotal⟩
    intro i c hc
    rw [habut.index_eq hc]
    omega

/-- In a chained list, the index tells which chunk it is. -/
theorem Chained.eq_of_index (h : Chained total cs) {c d : ChunkMeta} (hc : c ∈ cs) (hd : d ∈ cs)
    (hindex : c.index = d.index) : c = d := by
  obtain ⟨i, hi⟩ := List.getElem?_of_mem hc
  obtain ⟨j, hj⟩ := List.getElem?_of_mem hd
  have hij : i = j := by
    have hci := h.index i c hi
    have hdj := h.index j d hj
    omega
  rw [hij, hj] at hi
  exact (Option.some.inj hi).symm

/-! ## Sorting finds the chained order -/

theorem pairwise_sortByIndex : (sortByIndex cs).Pairwise fun c d => c.index ≤ d.index := by
  have hle : (sortByIndex cs).Pairwise fun c d => decide (c.index ≤ d.index) = true :=
    List.pairwise_mergeSort (by intro a b c; simp; omega) (by intro a b; simp; omega) cs
  exact hle.imp of_decide_eq_true

/-- **If some order of chunks is chained, sorting them finds it.** -/
theorem sortByIndex_of_chained {ordered : List ChunkMeta} (h : Chained total ordered)
    (hperm : ordered.Perm cs) : sortByIndex cs = ordered := by
  have hordered : ordered.Pairwise fun c d => c.index ≤ d.index :=
    (chained_iff.1 h).1.pairwise.imp fun hcd => Int.le_of_lt hcd.1
  have hsame : (sortByIndex cs).Perm ordered := (List.mergeSort_perm ..).trans hperm.symm
  refine List.Perm.eq_of_pairwise ?_ pairwise_sortByIndex hordered hsame
  intro c d hc hd hcd hdc
  exact h.eq_of_index (hsame.mem_iff.1 hc) hd (Int.le_antisymm hcd hdc)

/-- **A manifest is made exactly of a chained order of the chunks.** -/
theorem ofChunks_eq_ok_iff_chained : ofChunks total codec format cs = .ok m ↔
    (m.totalRows = total ∧ m.codec = codec ∧ m.format = format)
      ∧ m.chunks.Perm cs ∧ Chained total m.chunks := by
  rw [ofChunks_eq_ok_iff]
  constructor
  · rintro ⟨rfl, habut, htotal⟩
    exact ⟨⟨rfl, rfl, rfl⟩, List.mergeSort_perm .., chained_iff.2 ⟨habut, htotal⟩⟩
  · rintro ⟨⟨rfl, rfl, rfl⟩, hperm, hchained⟩
    obtain ⟨habut, htotal⟩ := chained_iff.1 hchained
    exact ⟨by rw [sortByIndex_of_chained hchained hperm], habut, htotal⟩

/-- There is only one chained order. -/
theorem Chained.eq_of_perm {ordered ordered' : List ChunkMeta} (h : Chained total ordered)
    (h' : Chained total ordered') (hperm : ordered.Perm cs) (hperm' : ordered'.Perm cs) :
    ordered = ordered' := by
  rw [← sortByIndex_of_chained h hperm, sortByIndex_of_chained h' hperm']

/-- The order in which chunks are given makes no difference. -/
theorem ofChunks_perm {cs' : List ChunkMeta} (hperm : cs'.Perm cs) :
    ofChunks total codec format cs' = .ok m ↔ ofChunks total codec format cs = .ok m := by
  have hsame : m.chunks.Perm cs' ↔ m.chunks.Perm cs :=
    ⟨fun h => h.trans hperm, fun h => h.trans hperm.symm⟩
  rw [ofChunks_eq_ok_iff_chained, ofChunks_eq_ok_iff_chained, hsame]

/-! ## Where a row lies -/

/-- Chunks that abut hold every row from the first one's on up to their number. -/
theorem Abut.exists_holding {position : Nat} {start row : Int} (h : Abut position start cs)
    (hstart : start ≤ row) (hend : row < start + rowsOf cs) :
    ∃ (i : Nat) (c : ChunkMeta), cs[i]? = some c ∧ Holds c row := by
  induction h with
  | nil =>
      simp only [rowsOf, List.map_nil, List.sum_nil] at hend
      omega
  | @cons position start c cs _ _ _ hc _ ih =>
      rcases Int.lt_or_le row (start + c.rowCount) with hlt | hge
      · exact ⟨0, c, rfl, by rw [Holds]; omega⟩
      · simp only [rowsOf, List.map_cons, List.sum_cons] at hend
        obtain ⟨i, d, hd, hrow⟩ := ih hge (by rw [rowsOf]; omega)
        exact ⟨i + 1, d, hd, hrow⟩

/-- No two chunks that abut hold the same row. -/
theorem Abut.eq_of_holds {position : Nat} {start row : Int} (h : Abut position start cs)
    {i j : Nat} {c d : ChunkMeta} (hc : cs[i]? = some c) (hd : cs[j]? = some d)
    (hrow : Holds c row) (hrow' : Holds d row) : i = j := by
  obtain ⟨hi, rfl⟩ := List.getElem?_eq_some_iff.1 hc
  obtain ⟨hj, rfl⟩ := List.getElem?_eq_some_iff.1 hd
  have hends := List.pairwise_iff_getElem.1 h.pairwise
  rw [Holds] at hrow hrow'
  rcases Nat.lt_trichotomy i j with hij | hij | hij
  · have hle := (hends i j hi hj hij).2
    omega
  · exact hij
  · have hle := (hends j i hj hi hij).2
    omega

/-- **A row of a chained list lies in exactly one chunk.** -/
theorem Chained.existsUnique_holding {row : Int} (h : Chained total cs) (hstart : firstRow cs ≤ row)
    (hend : row < firstRow cs + total) : ∃! i : Nat, ∃ c, cs[i]? = some c ∧ Holds c row := by
  obtain ⟨habut, htotal⟩ := chained_iff.1 h
  obtain ⟨i, c, hc, hrow⟩ := habut.exists_holding hstart (by rw [htotal]; exact hend)
  refine ⟨i, ⟨c, hc, hrow⟩, ?_⟩
  rintro j ⟨d, hd, hrow'⟩
  exact habut.eq_of_holds hd hc hrow' hrow

/-- **Exactly the contiguous chunkings are accepted, in any order.** Chunks make a manifest if and
only if some order of them is chained, and then:

* the manifest has the total, the codec and the format that were given, and its chunks are the only
  chained order;
* every order of the chunks makes the same manifest, or none does;
* every row from the first chunk's on, up to the total, lies in exactly one chunk. -/
theorem chunkings_accepted (total : Int) (codec : Codec) (format : Format) (cs : List ChunkMeta) :
    ((∃ m, ofChunks total codec format cs = .ok m) ↔
        ∃ ordered : List ChunkMeta, ordered.Perm cs ∧ Chained total ordered)
      ∧ (∀ m, ofChunks total codec format cs = .ok m →
        (m.totalRows = total ∧ m.codec = codec ∧ m.format = format)
          ∧ ∀ ordered : List ChunkMeta,
            ordered.Perm cs ∧ Chained total ordered ↔ ordered = m.chunks)
      ∧ (∀ cs' : List ChunkMeta, cs'.Perm cs → ∀ m,
        ofChunks total codec format cs' = .ok m ↔ ofChunks total codec format cs = .ok m)
      ∧ ∀ m, ofChunks total codec format cs = .ok m → ∀ row,
        firstRow m.chunks ≤ row → row < firstRow m.chunks + total →
          ∃! i : Nat, ∃ c, m.chunks[i]? = some c ∧ Holds c row := by
  refine ⟨⟨?_, ?_⟩, ?_, fun cs' hperm m => ofChunks_perm hperm, ?_⟩
  · rintro ⟨m, hm⟩
    exact ⟨m.chunks, (ofChunks_eq_ok_iff_chained.1 hm).2⟩
  · rintro ⟨ordered, hordered⟩
    exact ⟨⟨total, codec, format, ordered⟩,
      ofChunks_eq_ok_iff_chained.2 ⟨⟨rfl, rfl, rfl⟩, hordered⟩⟩
  · intro m hm
    obtain ⟨hgiven, hperm, hchained⟩ := ofChunks_eq_ok_iff_chained.1 hm
    refine ⟨hgiven, fun ordered => ⟨?_, ?_⟩⟩
    · rintro ⟨hperm', hchained'⟩
      exact hchained'.eq_of_perm hchained hperm' hperm
    · rintro rfl
      exact ⟨hperm, hchained⟩
  · intro m hm row hstart hend
    obtain ⟨-, -, hchained⟩ := ofChunks_eq_ok_iff_chained.1 hm
    exact hchained.existsUnique_holding hstart hend

end ResultChunks.Manifest
