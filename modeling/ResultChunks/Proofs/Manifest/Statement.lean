import Mathlib.Algebra.Order.Group.Unbundled.Int
import Mathlib.Algebra.BigOperators.Group.List.Basic
import ResultChunks.Proofs.Manifest.Chunking
import ResultChunks.Proofs.RowSet.Grammar

/-!
# The manifest of a statement

A statement describes its chunks in any order, or leaves that to its links, and each link is attached
to the chunk at the position of its index before anything has checked that the chunk there is the one
with this index in the end. `attach` looks at the index of the chunk it meets, so a link is either
attached to its own chunk or refused, and which chunks it meets does not depend on the links before
it. So attaching links and checking chunks do not get in each other's way: `ofStatement_eq` takes them
apart, and what remains is the manifest of the described chunks with the last link to each put in.
-/

namespace ResultChunks.Manifest

open RowSet (bind_eq_ok_iff)

/-- The links that the result data lists, as they are written. -/
def written (result : Option Statement.ResultData) : List Statement.ExternalLink :=
  (result.bind (·.externalLinks)).getD []

/-- The extent that a written link tells. -/
def metaOfWritten (l : Statement.ExternalLink) : ChunkMeta :=
  ⟨l.chunkIndex, l.rowOffset, l.rowCount, l.byteCount, none⟩

/-- The extents of the chunks, in the order in which the statement tells them. -/
def extents (m : Statement.ResultManifest) (result : Option Statement.ResultData) :
    List ChunkMeta :=
  match m.chunks with
  | some infos => infos.map metaOfInfo
  | none => (written result).map metaOfWritten

/-- The manifest of the extents alone, without any link. -/
def ofExtents (m : Statement.ResultManifest) (result : Option Statement.ResultData) :
    Except ManifestFault Manifest :=
  ofChunks (m.totalRowCount.getD (rowsOf (extents m result))) (Codec.ofName m.resultCompression)
    .arrowStream (extents m result)

/-- The last link to a chunk. -/
def linkTo (ls : List Link) (i : Nat) : Option Link := ls.reverse.find? fun l => l.chunkIndex = i

/-- Chunks with the last link to each put in. A chunk without any keeps what it has. -/
def linked (cs : List ChunkMeta) (ls : List Link) : List ChunkMeta :=
  cs.mapIdx fun i c => { c with link := (linkTo ls i).or c.link }

/-- A chunk without its link. -/
def unlinked (c : ChunkMeta) : ChunkMeta := { c with link := none }

/-- The chunk at the position of an index is the one with this index. -/
def Hits (cs : List ChunkMeta) (index : Int) : Prop :=
  0 ≤ index ∧ (cs.map ChunkMeta.index)[index.toNat]? = some index

/-- What a statement has to say so that its manifest is made. -/
structure Describes (dateOf : String → Option Timestamp) (m : Statement.ResultManifest)
    (result : Option Statement.ResultData) : Prop where
  /-- The expirations of links can be read. -/
  dated : ∀ w ∈ written result, (dateOf w.expiration).isSome
  /-- The extents alone make a manifest. -/
  laid : ∃ man, ofExtents m result = .ok man
  /-- Links are to chunks that are there. -/
  named : ∀ w ∈ written result, 0 ≤ w.chunkIndex ∧ w.chunkIndex < (extents m result).length
  /-- If a number of chunks is announced, it is theirs. -/
  counted : ∀ n, m.totalChunkCount = some n → n = (extents m result).length

/-- The manifest that is made of a statement. -/
structure Builds (dateOf : String → Option Timestamp) (m : Statement.ResultManifest)
    (result : Option Statement.ResultData) (man : Manifest) : Prop where
  /-- The total is the announced one, or the rows of the chunks. -/
  total : man.totalRows = m.totalRowCount.getD (rowsOf (extents m result))
  /-- Payloads are streams, compressed as announced. -/
  encoding : man.codec = Codec.ofName m.resultCompression ∧ man.format = .arrowStream
  /-- The chunks are those of the extents, in the order of their indices. -/
  geometry : man.chunks.map unlinked = sortByIndex (extents m result)
  /-- The index of a chunk is its position. -/
  index : ∀ (i : Nat) (c : ChunkMeta), man.chunks[i]? = some c → c.index = i
  /-- A chunk has the last link to it, or none if there is none. -/
  link : ∃ ls, linksOf dateOf result = .ok ls ∧
    ∀ (i : Nat) (c : ChunkMeta), man.chunks[i]? = some c → c.link = linkTo ls i
  /-- No chunk has the link of another. -/
  own : ∀ c ∈ man.chunks, ∀ l, c.link = some l → l.chunkIndex = c.index

/-- The faults that are found with a statement, and what is so if they are. -/
inductive Refuses (dateOf : String → Option Timestamp) (m : Statement.ResultManifest)
    (result : Option Statement.ResultData) : ManifestFault → Prop where
  | undated {w : Statement.ExternalLink} : w ∈ written result →
      dateOf w.expiration = none → Refuses dateOf m result (.badExpiration w.expiration)
  | stray {w : Statement.ExternalLink} : w ∈ written result →
      ¬ Hits (sortByIndex (extents m result)) w.chunkIndex →
      Refuses dateOf m result (.strayLink w.chunkIndex)
  | miscounted {n : Int} : m.totalChunkCount = some n → n ≠ (extents m result).length →
      Refuses dateOf m result (.chunkTotal n (extents m result).length)
  | unlaid {e : ManifestFault} : ofExtents m result = .error e → Refuses dateOf m result e

/-! ## Reading the links -/

section

variable {ε α β : Type} {f : α → Except ε β}

theorem mapM_eq_ok_iff {xs : List α} {ys : List β} :
    xs.mapM f = .ok ys ↔ List.Forall₂ (fun x y => f x = .ok y) xs ys := by
  induction xs generalizing ys with
  | nil =>
      rw [List.mapM_nil, List.forall₂_nil_left_iff]
      exact ⟨fun h => (Except.ok.inj h).symm, fun h => congrArg Except.ok h.symm⟩
  | cons x xs ih =>
      rw [List.mapM_cons, bind_eq_ok_iff, List.forall₂_cons_left_iff]
      constructor
      · rintro ⟨y, hy, h⟩
        obtain ⟨ys', hys, h⟩ := bind_eq_ok_iff.1 h
        obtain rfl := Except.ok.inj h
        exact ⟨y, ys', hy, ih.1 hys, rfl⟩
      · rintro ⟨y, ys', hy, hys, rfl⟩
        exact ⟨y, hy, bind_eq_ok_iff.2 ⟨ys', ih.2 hys, rfl⟩⟩

theorem exists_of_mapM_eq_error {xs : List α} {e : ε} (h : xs.mapM f = .error e) :
    ∃ x ∈ xs, f x = .error e := by
  induction xs with
  | nil => cases h
  | cons x xs ih =>
      rw [List.mapM_cons] at h
      cases hx : f x with
      | error e' =>
          rw [hx] at h
          obtain rfl := Except.error.inj h
          exact ⟨x, List.mem_cons_self .., hx⟩
      | ok y =>
          cases hxs : xs.mapM f with
          | error e' =>
              rw [hx, hxs] at h
              obtain rfl := Except.error.inj h
              obtain ⟨x', hx', he⟩ := ih hxs
              exact ⟨x', List.mem_cons_of_mem _ hx', he⟩
          | ok ys =>
              rw [hx, hxs] at h
              cases h

end

variable {dateOf : String → Option Timestamp} {m : Statement.ResultManifest}
  {result : Option Statement.ResultData} {cs : List ChunkMeta} {l : Link} {ls : List Link}

/-- What is kept of a written link. -/
theorem toLink_keeps {w : Statement.ExternalLink} (h : w.toLink dateOf = .ok l) :
    (dateOf w.expiration).isSome ∧ l.chunkIndex = w.chunkIndex
      ∧ metaOfLink l = metaOfWritten w := by
  unfold Statement.ExternalLink.toLink at h
  split at h
  · cases h
  · rename_i hdate
    obtain rfl := Except.ok.inj h
    exact ⟨by rw [hdate]; rfl, rfl, rfl⟩

theorem toLink_error {w : Statement.ExternalLink} {e : ManifestFault}
    (h : w.toLink dateOf = .error e) : dateOf w.expiration = none ∧ e = .badExpiration w.expiration := by
  unfold Statement.ExternalLink.toLink at h
  split at h
  · rename_i hdate
    exact ⟨hdate, (Except.error.inj h).symm⟩
  · cases h

theorem linksOf_eq_ok_iff : linksOf dateOf result = .ok ls ↔
    List.Forall₂ (fun w l => w.toLink dateOf = .ok l) (written result) ls :=
  mapM_eq_ok_iff

/-- Links can be read exactly if their expirations can. -/
theorem exists_linksOf_iff : (∃ ls, linksOf dateOf result = .ok ls) ↔
    ∀ w ∈ written result, (dateOf w.expiration).isSome := by
  constructor
  · rintro ⟨ls, hls⟩ w hw
    have hall := linksOf_eq_ok_iff.1 hls
    obtain ⟨i, hi, rfl⟩ := List.getElem_of_mem hw
    have hi' : i < ls.length := hall.length_eq ▸ hi
    exact (toLink_keeps (hall.get hi hi')).1
  · intro hdated
    cases hls : linksOf dateOf result with
    | ok ls => exact ⟨ls, rfl⟩
    | error e =>
        obtain ⟨w, hw, he⟩ := exists_of_mapM_eq_error hls
        have hdate := hdated w hw
        rw [(toLink_error he).1] at hdate
        cases hdate

/-- What each link has from the written one, all of them have from the written ones. -/
theorem map_linksOf {γ : Type} {f : Link → γ} {g : Statement.ExternalLink → γ}
    (hkept : ∀ w l, w.toLink dateOf = .ok l → f l = g w) (h : linksOf dateOf result = .ok ls) :
    ls.map f = (written result).map g := by
  replace h := linksOf_eq_ok_iff.1 h
  generalize written result = ws at h
  induction h with
  | nil => rfl
  | cons hw _ ih => rw [List.map_cons, List.map_cons, hkept _ _ hw, ih]

/-- The links name the chunks that the written ones name. -/
theorem forall_linksOf (h : linksOf dateOf result = .ok ls) {p : Int → Prop} :
    (∀ l ∈ ls, p l.chunkIndex) ↔ ∀ w ∈ written result, p w.chunkIndex := by
  have hindices := map_linksOf (fun w l hw => (toLink_keeps hw).2.1) h
  rw [← List.forall_mem_map (f := Link.chunkIndex) (P := p), hindices, List.forall_mem_map]

theorem describedChunks_eq (h : linksOf dateOf result = .ok ls) :
    describedChunks m ls = extents m result := by
  unfold describedChunks extents
  cases m.chunks with
  | some infos => rfl
  | none => exact map_linksOf (fun w l hw => (toLink_keeps hw).2.2) h

/-! ## Attaching the links -/

theorem linkTo_cons (l : Link) (ls : List Link) (i : Nat) :
    linkTo (l :: ls) i = (linkTo ls i).or (linkTo [l] i) := by
  simp only [linkTo, List.reverse_cons, List.find?_append, List.reverse_nil, List.nil_append]

theorem linkTo_singleton (i : Nat) : linkTo [l] i = if l.chunkIndex = i then some l else none := by
  simp [linkTo, List.find?_cons]
  split <;> simp_all

theorem chunkIndex_of_linkTo {i : Nat} (h : linkTo ls i = some l) : l.chunkIndex = i := by
  simpa using List.find?_some h

theorem getElem?_linked (i : Nat) : (linked cs ls)[i]? =
    cs[i]?.map fun c => { c with link := (linkTo ls i).or c.link } :=
  List.getElem?_mapIdx

theorem linked_nil : linked cs [] = cs := by
  refine List.ext_getElem? fun i => ?_
  rw [getElem?_linked]
  cases cs[i]? with
  | none => rfl
  | some c => rfl

theorem linked_linked (cs : List ChunkMeta) (l : Link) (ls : List Link) :
    linked (linked cs [l]) ls = linked cs (l :: ls) := by
  refine List.ext_getElem? fun i => ?_
  simp only [getElem?_linked, Option.map_map]
  cases cs[i]? with
  | none => rfl
  | some c =>
      rw [Option.map_some, Option.map_some, linkTo_cons l ls, Option.or_assoc]
      rfl

theorem map_unlinked_linked (cs : List ChunkMeta) (ls : List Link) :
    (linked cs ls).map unlinked = cs.map unlinked := by
  refine List.ext_getElem? fun i => ?_
  simp only [List.getElem?_map, getElem?_linked, Option.map_map]
  rfl

/-- Links change nothing about the indices. -/
theorem map_index_linked (cs : List ChunkMeta) (ls : List Link) :
    (linked cs ls).map ChunkMeta.index = cs.map ChunkMeta.index := by
  have h := congrArg (List.map ChunkMeta.index) (map_unlinked_linked cs ls)
  rwa [List.map_map, List.map_map] at h

theorem hits_linked {index : Int} : Hits (linked cs [l]) index ↔ Hits cs index := by
  rw [Hits, Hits, map_index_linked]

/-- A link that hits is put in, and it is the chunk with its index that gets it. -/
theorem attach_of_hits (h : Hits cs l.chunkIndex) : attach cs l = .ok (linked cs [l]) := by
  obtain ⟨hnonneg, hindex⟩ := h
  rw [List.getElem?_map, Option.map_eq_some_iff] at hindex
  obtain ⟨c, hc, hindex⟩ := hindex
  -- the chunk that is set is the only one that the link is the last one to
  have hset : cs.set l.chunkIndex.toNat { c with link := some l } = linked cs [l] := by
    refine List.ext_getElem? fun i => ?_
    rw [getElem?_linked, linkTo_singleton, List.getElem?_set]
    by_cases hi : l.chunkIndex.toNat = i
    · subst hi
      obtain ⟨hlt, -⟩ := List.getElem?_eq_some_iff.1 hc
      rw [if_pos rfl, if_pos hlt, if_pos (by omega), hc]
      rfl
    · rw [if_neg hi, if_neg (by omega)]
      cases cs[i]? with
      | none => rfl
      | some c => rfl
  rw [attach, if_neg (by omega), hc]
  simp only [if_pos hindex, hset]

theorem attach_of_not_hits (h : ¬ Hits cs l.chunkIndex) :
    attach cs l = .error (.strayLink l.chunkIndex) := by
  unfold attach
  split
  · rfl
  · rename_i hnonneg
    split
    · rfl
    · rename_i c hc
      rw [if_neg]
      intro hindex
      refine h ⟨by omega, ?_⟩
      rw [List.getElem?_map, hc, Option.map_some, hindex]

/-- **Links that all hit leave each chunk with the last one to it.** -/
theorem foldlM_attach (h : ∀ l ∈ ls, Hits cs l.chunkIndex) :
    ls.foldlM attach cs = .ok (linked cs ls) := by
  -- along the links; the chunks change on the way, but which links hit does not
  induction ls generalizing cs with
  | nil => rw [linked_nil]; rfl
  | cons l ls ih =>
      have hl := attach_of_hits (h l (List.mem_cons_self ..))
      have hls : ∀ l' ∈ ls, Hits (linked cs [l]) l'.chunkIndex := fun l' hl' =>
        hits_linked.2 (h l' (List.mem_cons_of_mem _ hl'))
      rw [List.foldlM_cons, hl, ← linked_linked cs l ls]
      exact ih hls

/-- Of links that do not all hit, the first that does not is the fault. -/
theorem foldlM_attach_of_not_hits (h : ¬ ∀ l ∈ ls, Hits cs l.chunkIndex) :
    ∃ l ∈ ls, ¬ Hits cs l.chunkIndex ∧ ls.foldlM attach cs = .error (.strayLink l.chunkIndex) := by
  induction ls generalizing cs with
  | nil => exact absurd (fun l hl => absurd hl List.not_mem_nil) h
  | cons l ls ih =>
      rw [List.foldlM_cons]
      by_cases hl : Hits cs l.chunkIndex
      · have hls : ¬ ∀ l' ∈ ls, Hits (linked cs [l]) l'.chunkIndex := fun hls =>
          h (List.forall_mem_cons.2 ⟨hl, fun l' hl' => hits_linked.1 (hls l' hl')⟩)
        obtain ⟨l', hl', hstray, he⟩ := ih hls
        rw [attach_of_hits hl]
        exact ⟨l', List.mem_cons_of_mem _ hl', fun hits => hstray (hits_linked.2 hits), he⟩
      · exact ⟨l, List.mem_cons_self .., hl, by rw [attach_of_not_hits hl]; rfl⟩

/-- In chunks that count up from zero, those indices hit that are below their number. -/
theorem Abut.hits_iff {start index : Int} (h : Abut 0 start cs) :
    Hits cs index ↔ 0 ≤ index ∧ index < cs.length := by
  rw [Hits, List.getElem?_map, Option.map_eq_some_iff]
  constructor
  · rintro ⟨hnonneg, c, hc, -⟩
    obtain ⟨hlt, -⟩ := List.getElem?_eq_some_iff.1 hc
    omega
  · rintro ⟨hnonneg, hlt⟩
    have hc := List.getElem?_eq_getElem (l := cs) (i := index.toNat) (by omega)
    refine ⟨hnonneg, _, hc, ?_⟩
    rw [h.index_eq hc]
    omega

/-! ## Checking chunks with links -/

theorem checkChunks_unlinked (position : Nat) (start : Int) :
    checkChunks position start (cs.map unlinked) = checkChunks position start cs := by
  induction cs generalizing position start with
  | nil => rfl
  | cons c cs ih =>
      rw [List.map_cons, checkChunks, checkChunks, unlinked, ih]
      rfl

/-- The check does not look at links. -/
theorem check_unlinked (total : Int) : check total (cs.map unlinked) = check total cs := by
  have hfirst : firstRow (cs.map unlinked) = firstRow cs := by
    cases cs with
    | nil => rfl
    | cons c cs => rfl
  rw [check, check, checkChunks_unlinked, hfirst]

theorem check_linked (total : Int) : check total (linked cs ls) = check total cs := by
  rw [← check_unlinked, map_unlinked_linked, check_unlinked]

/-- Sorted chunks stay where they are when links are put in. -/
theorem sortByIndex_linked :
    sortByIndex (linked (sortByIndex cs) ls) = linked (sortByIndex cs) ls := by
  have hindices : ((sortByIndex cs).map ChunkMeta.index).Pairwise (· ≤ ·) :=
    List.pairwise_map.2 pairwise_sortByIndex
  rw [← map_index_linked _ ls, List.pairwise_map] at hindices
  exact List.mergeSort_of_pairwise (hindices.imp fun hle => decide_eq_true hle)

/-- **A manifest can be made before or after links are put in.** -/
theorem ofChunks_linked (total : Int) (codec : Codec) (format : Format) :
    ofChunks total codec format (linked (sortByIndex cs) ls) =
      (ofChunks total codec format cs).map fun man => { man with chunks := linked man.chunks ls } := by
  simp only [ofChunks, sortByIndex_linked, check_linked]
  cases check total (sortByIndex cs) with
  | error e => rfl
  | ok u => rfl

/-! ## What becomes of a statement -/

theorem rowsOf_perm {cs' : List ChunkMeta} (h : cs'.Perm cs) : rowsOf cs' = rowsOf cs :=
  (h.map ChunkMeta.rowCount).sum_eq

theorem announcedRows_linked : announcedRows m (linked (sortByIndex cs) ls) =
    m.totalRowCount.getD (rowsOf cs) := by
  have hrows : (linked (sortByIndex cs) ls).map ChunkMeta.rowCount =
      (sortByIndex cs).map ChunkMeta.rowCount := by
    have h := congrArg (List.map ChunkMeta.rowCount) (map_unlinked_linked (sortByIndex cs) ls)
    rwa [List.map_map, List.map_map] at h
  rw [announcedRows, hrows, ← List.sum_eq_foldl]
  exact congrArg m.totalRowCount.getD (rowsOf_perm (List.mergeSort_perm ..))

theorem length_linked_sortByIndex (cs : List ChunkMeta) (ls : List Link) :
    (linked (sortByIndex cs) ls).length = cs.length := by
  rw [linked, List.length_mapIdx, sortByIndex, List.length_mergeSort]

theorem linkedChunks_eq (hls : linksOf dateOf result = .ok ls)
    (hhits : ∀ l ∈ ls, Hits (sortByIndex (extents m result)) l.chunkIndex) :
    linkedChunks dateOf m result =
      match m.totalChunkCount with
      | some announced =>
        if announced ≠ (extents m result).length then
          .error (.chunkTotal announced (extents m result).length)
        else .ok (linked (sortByIndex (extents m result)) ls)
      | none => .ok (linked (sortByIndex (extents m result)) ls) := by
  unfold linkedChunks
  rw [hls]
  show (ls.foldlM attach (sortByIndex (describedChunks m ls)) >>= _) = _
  rw [describedChunks_eq hls, foldlM_attach hhits, ← length_linked_sortByIndex _ ls]
  rfl

/-- **Attaching links and checking chunks come apart.** If the links can be read and hit, and the
announced number of chunks is right, then the manifest is that of the extents with the links put in;
and if there is none of the extents, there is none for the same reason. -/
theorem ofStatement_eq (hls : linksOf dateOf result = .ok ls)
    (hhits : ∀ l ∈ ls, Hits (sortByIndex (extents m result)) l.chunkIndex)
    (hcount : ∀ n, m.totalChunkCount = some n → n = (extents m result).length) :
    ofStatement dateOf m result =
      (ofExtents m result).map fun man => { man with chunks := linked man.chunks ls } := by
  have hchunks : linkedChunks dateOf m result = .ok (linked (sortByIndex (extents m result)) ls) := by
    rw [linkedChunks_eq hls hhits]
    cases hn : m.totalChunkCount with
    | none => rfl
    | some n => exact if_neg (not_not_intro (hcount n hn))
  rw [ofStatement, hchunks]
  show ofChunks (announcedRows m _) _ _ _ = _
  rw [announcedRows_linked, ofChunks_linked]
  rfl

theorem refused_of_undated {e : ManifestFault} (hls : linksOf dateOf result = .error e) :
    Refuses dateOf m result e ∧ ofStatement dateOf m result = .error e := by
  obtain ⟨w, hw, he⟩ := exists_of_mapM_eq_error hls
  obtain ⟨hdate, rfl⟩ := toLink_error he
  refine ⟨.undated hw hdate, ?_⟩
  rw [ofStatement, linkedChunks, hls]
  rfl

theorem refused_of_stray (hls : linksOf dateOf result = .ok ls)
    (hhits : ¬ ∀ l ∈ ls, Hits (sortByIndex (extents m result)) l.chunkIndex) :
    ∃ e, Refuses dateOf m result e ∧ ofStatement dateOf m result = .error e := by
  obtain ⟨l, hl, hstray, he⟩ := foldlM_attach_of_not_hits hhits
  have hindices : ls.map Link.chunkIndex = (written result).map (·.chunkIndex) :=
    map_linksOf (fun w l hw => (toLink_keeps hw).2.1) hls
  obtain ⟨w, hw, hindex⟩ := List.mem_map.1 (hindices ▸ List.mem_map_of_mem hl)
  rw [← hindex] at hstray he
  refine ⟨_, .stray hw hstray, ?_⟩
  rw [ofStatement, linkedChunks, hls]
  show ((ls.foldlM attach (sortByIndex (describedChunks m ls)) >>= _) >>= _) = _
  rw [describedChunks_eq hls, he]
  rfl

theorem refused_of_miscounted (hls : linksOf dateOf result = .ok ls)
    (hhits : ∀ l ∈ ls, Hits (sortByIndex (extents m result)) l.chunkIndex) {n : Int}
    (hn : m.totalChunkCount = some n) (hne : n ≠ (extents m result).length) :
    ∃ e, Refuses dateOf m result e ∧ ofStatement dateOf m result = .error e := by
  have hchunks := linkedChunks_eq hls hhits
  simp only [hn, if_pos hne] at hchunks
  refine ⟨_, .miscounted hn hne, ?_⟩
  rw [ofStatement, hchunks]
  rfl

/-- A statement is refused for its links or its count, or nothing is wrong with these. -/
theorem ofStatement_cases (dateOf : String → Option Timestamp) (m : Statement.ResultManifest)
    (result : Option Statement.ResultData) :
    (∃ e, Refuses dateOf m result e ∧ ofStatement dateOf m result = .error e) ∨
      ∃ ls, linksOf dateOf result = .ok ls
        ∧ (∀ w ∈ written result, Hits (sortByIndex (extents m result)) w.chunkIndex)
        ∧ ∀ n, m.totalChunkCount = some n → n = (extents m result).length := by
  -- in the order in which the faults are looked for: dates, stray links, the number of chunks
  cases hls : linksOf dateOf result with
  | error e => exact .inl ⟨e, refused_of_undated hls⟩
  | ok ls =>
      by_cases hhits : ∀ l ∈ ls, Hits (sortByIndex (extents m result)) l.chunkIndex
      · by_cases hcount : ∀ n, m.totalChunkCount = some n → n = (extents m result).length
        · exact .inr ⟨ls, rfl, (forall_linksOf hls).1 hhits, hcount⟩
        · obtain ⟨n, hcount⟩ := not_forall.1 hcount
          obtain ⟨hn, hne⟩ := Classical.not_imp.1 hcount
          exact .inl (refused_of_miscounted hls hhits hn hne)
      · exact .inl (refused_of_stray hls hhits)

/-- In extents that make a manifest, those indices hit that are below their number. -/
theorem hits_sortByIndex_iff {man : Manifest} (h : ofExtents m result = .ok man) {index : Int} :
    Hits (sortByIndex (extents m result)) index ↔
      0 ≤ index ∧ index < (extents m result).length := by
  obtain ⟨rfl, hlaid⟩ := ofChunks_eq_ok_iff.1 h
  rw [hlaid.abut.hits_iff, sortByIndex, List.length_mergeSort]

/-- **A manifest is made of a statement exactly if the links can be read and name chunks that are
there, the announced number of chunks is right, and the extents make a manifest.** It is that one
with the links put in. -/
theorem ofStatement_eq_ok_iff {man : Manifest} : ofStatement dateOf m result = .ok man ↔
    ∃ ls bare, linksOf dateOf result = .ok ls ∧ ofExtents m result = .ok bare
      ∧ (∀ w ∈ written result, 0 ≤ w.chunkIndex ∧ w.chunkIndex < (extents m result).length)
      ∧ (∀ n, m.totalChunkCount = some n → n = (extents m result).length)
      ∧ man = { bare with chunks := linked bare.chunks ls } := by
  constructor
  · intro h
    obtain ⟨e, -, he⟩ | ⟨ls, hls, hhits, hcount⟩ := ofStatement_cases dateOf m result
    · cases he.symm.trans h
    · rw [ofStatement_eq hls ((forall_linksOf hls).2 hhits) hcount] at h
      cases hbare : ofExtents m result with
      | error e =>
          rw [hbare] at h
          cases h
      | ok bare =>
          rw [hbare] at h
          have hnamed := fun w hw => (hits_sortByIndex_iff hbare).1 (hhits w hw)
          exact ⟨ls, bare, hls, rfl, hnamed, hcount, (Except.ok.inj h).symm⟩
  · rintro ⟨ls, bare, hls, hbare, hnamed, hcount, rfl⟩
    have hhits := fun w hw => (hits_sortByIndex_iff hbare).2 (hnamed w hw)
    rw [ofStatement_eq hls ((forall_linksOf hls).2 hhits) hcount, hbare]
    rfl

/-- A manifest is made exactly of the statements that describe one. -/
theorem exists_ofStatement_iff :
    (∃ man, ofStatement dateOf m result = .ok man) ↔ Describes dateOf m result := by
  constructor
  · rintro ⟨man, h⟩
    obtain ⟨ls, bare, hls, hbare, hnamed, hcount, -⟩ := ofStatement_eq_ok_iff.1 h
    exact ⟨exists_linksOf_iff.1 ⟨ls, hls⟩, ⟨bare, hbare⟩, hnamed, hcount⟩
  · intro h
    obtain ⟨ls, hls⟩ := exists_linksOf_iff.2 h.dated
    obtain ⟨bare, hbare⟩ := h.laid
    exact ⟨_, ofStatement_eq_ok_iff.2 ⟨ls, bare, hls, hbare, h.named, h.counted, rfl⟩⟩

theorem unlinked_of_mem_extents {c : ChunkMeta} (h : c ∈ extents m result) : c.link = none := by
  unfold extents at h
  split at h
  · obtain ⟨i, -, rfl⟩ := List.mem_map.1 h
    rfl
  · obtain ⟨w, -, rfl⟩ := List.mem_map.1 h
    rfl

/-- **Each chunk has the last link to it and no other.** -/
theorem builds_of_ofStatement {man : Manifest} (h : ofStatement dateOf m result = .ok man) :
    Builds dateOf m result man := by
  obtain ⟨ls, bare, hls, hbare, -, -, rfl⟩ := ofStatement_eq_ok_iff.1 h
  obtain ⟨rfl, hlaid⟩ := ofChunks_eq_ok_iff.1 hbare
  -- extents have no links, so those of the chunks are the ones that were put in
  have hnone : ∀ c ∈ sortByIndex (extents m result), c.link = none := fun c hc =>
    unlinked_of_mem_extents ((List.mergeSort_perm ..).mem_iff.1 hc)
  have hchunk : ∀ (i : Nat) (c : ChunkMeta),
      (linked (sortByIndex (extents m result)) ls)[i]? = some c →
        c.index = i ∧ c.link = linkTo ls i := by
    intro i c hc
    rw [getElem?_linked, Option.map_eq_some_iff] at hc
    obtain ⟨c, hc, rfl⟩ := hc
    have hindex := hlaid.abut.index_eq hc
    simp only [hnone c (List.mem_of_getElem? hc), Option.or_none]
    exact ⟨by omega, trivial⟩
  refine ⟨rfl, ⟨rfl, rfl⟩, ?_, fun i c hc => (hchunk i c hc).1,
    ⟨ls, hls, fun i c hc => (hchunk i c hc).2⟩, ?_⟩
  · show (linked _ ls).map unlinked = _
    rw [map_unlinked_linked]
    refine (List.map_congr_left fun c hc => ?_).trans (List.map_id _)
    rw [unlinked, ← hnone c hc]
    rfl
  · intro c hc l hl
    obtain ⟨i, hi⟩ := List.getElem?_of_mem hc
    obtain ⟨hindex, hlink⟩ := hchunk i c hi
    rw [hindex]
    exact chunkIndex_of_linkTo (hlink.symm.trans hl)

/-- The order in which a statement describes its chunks makes no difference. -/
theorem ofStatement_perm {infos infos' : List Statement.ChunkInfo} (hinfos : m.chunks = some infos)
    (hperm : infos'.Perm infos) {man : Manifest} :
    ofStatement dateOf { m with chunks := some infos' } result = .ok man ↔
      ofStatement dateOf m result = .ok man := by
  have hextents : (extents { m with chunks := some infos' } result).Perm (extents m result) := by
    simp only [extents, hinfos]
    exact hperm.map metaOfInfo
  have hbare : ∀ bare, ofExtents { m with chunks := some infos' } result = .ok bare ↔
      ofExtents m result = .ok bare := by
    intro bare
    rw [ofExtents, rowsOf_perm hextents]
    exact ofChunks_perm hextents
  simp only [ofStatement_eq_ok_iff, hbare, hextents.length_eq]

/-- A statement of which no manifest is made is refused for a reason. -/
theorem refuses_of_ofStatement {e : ManifestFault} (he : ofStatement dateOf m result = .error e) :
    Refuses dateOf m result e := by
  obtain ⟨e', hrefuses, he'⟩ | ⟨ls, hls, hhits, hcount⟩ := ofStatement_cases dateOf m result
  · obtain rfl := Except.error.inj (he.symm.trans he')
    exact hrefuses
  · rw [ofStatement_eq hls ((forall_linksOf hls).2 hhits) hcount] at he
    cases hbare : ofExtents m result with
    | error e' =>
        rw [hbare] at he
        obtain rfl := Except.error.inj he
        exact .unlaid hbare
    | ok bare =>
        rw [hbare] at he
        cases he

/-- **What becomes of a statement**, whatever reads the timestamps in it. A manifest is made of it if
and only if it describes a chunking, and then

* the manifest has this chunking, in the order of its indices, and each chunk has the last link to it,
  if there is one: so no chunk ever has the link of another;
* any order of the described chunks makes the same manifest.

Otherwise the statement is refused with a fault of manifests, and `Refuses` says for which reason. -/
theorem statements_accepted (dateOf : String → Option Timestamp) (m : Statement.ResultManifest)
    (result : Option Statement.ResultData) :
    ((∃ man, ofStatement dateOf m result = .ok man) ↔ Describes dateOf m result)
      ∧ (∀ man, ofStatement dateOf m result = .ok man → Builds dateOf m result man)
      ∧ (∀ infos infos', m.chunks = some infos → infos'.Perm infos → ∀ man,
        ofStatement dateOf { m with chunks := some infos' } result = .ok man ↔
          ofStatement dateOf m result = .ok man)
      ∧ ∀ e, ofStatement dateOf m result = .error e → Refuses dateOf m result e :=
  ⟨exists_ofStatement_iff, fun _ => builds_of_ofStatement,
    fun _ _ hinfos hperm _ => ofStatement_perm hinfos hperm, fun _ => refuses_of_ofStatement⟩

end ResultChunks.Manifest
