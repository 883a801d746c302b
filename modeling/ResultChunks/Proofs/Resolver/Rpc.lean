import Mathlib.Data.List.Basic
import ResultChunks.Proofs.Manifest.Geometry
import ResultChunks.Rehearsal.Sample
import ResultChunks.Resolver.Rpc

/-!
# Whose link is it?

A file does not say which chunk it holds: the resolver finds out from the row it starts at. `Listing`
is what the server means, `Sound` says that memory agrees with it, and `call` is a whole call, with
the other calls that use the memory while a query is under way. One round of `serve` and `keep` leaves
the links right as long as the chunks start at different rows; the requests that are still to look at
get fewer with each query, so the call ends with a link for each.

Where an empty chunk is followed by another, both start at one row, and of these the map knows the
last only: the empty chunk cannot be resolved, and if its file is listed last, the other chunk gets it.
-/

namespace ResultChunks.Rpc.Resolver

open Manifest (Laid StartsDiffer OnlyLastEmpty)

/-! ## The chunk that starts at a row -/

/-- The map of starts after the chunks of a manifest, the last chunk first. -/
def startTable (cs : List ChunkMeta) : List (Int × Int) :=
  (cs.map fun c => (c.rowOffset, c.index)).reverse

theorem Memory.chunkByOffset_foldl (cs : List ChunkMeta) (mem : Memory) :
    (cs.foldl Memory.addChunk mem).chunkByOffset = startTable cs ++ mem.chunkByOffset := by
  induction cs generalizing mem with
  | nil => rfl
  | cons c cs ih => simp [ih, Memory.addChunk, startTable]

theorem Memory.links_foldl (cs : List ChunkMeta) (mem : Memory) {index : Int} {l : Link}
    (h : (cs.foldl Memory.addChunk mem).links.find? index = some l) :
    mem.links.find? index = some l ∨ ∃ c ∈ cs, c.index = index ∧ c.link = some l := by
  induction cs generalizing mem with
  | nil => exact Or.inl h
  | cons c cs ih =>
    rcases ih (mem.addChunk c) h with hfirst | ⟨d, hd, hl⟩
    · cases hc : c.link with
      | none =>
        simp only [Memory.addChunk, hc] at hfirst
        exact Or.inl hfirst
      | some l' =>
        simp only [Memory.addChunk, hc] at hfirst
        by_cases hindex : index = c.index
        · subst hindex
          rw [LinkTable.find?_insert_self] at hfirst
          exact Or.inr ⟨c, List.mem_cons_self, rfl, by rw [hc, ← hfirst]⟩
        · rw [LinkTable.find?_insert_of_ne _ _ hindex] at hfirst
          exact Or.inl hfirst
    · exact Or.inr ⟨d, List.mem_cons_of_mem _ hd, hl⟩

theorem exists_of_lookup_startTable {cs : List ChunkMeta} {offset index : Int}
    (h : (startTable cs).lookup offset = some index) :
    ∃ c ∈ cs, c.rowOffset = offset ∧ c.index = index := by
  obtain ⟨before, after, heq, -⟩ := List.lookup_eq_some_iff.1 h
  have hmem : (offset, index) ∈ startTable cs := by simp [heq]
  simpa [startTable] using hmem

theorem lookup_startTable_isSome {cs : List ChunkMeta} {c : ChunkMeta} (hc : c ∈ cs) :
    ∃ index, (startTable cs).lookup c.rowOffset = some index := by
  cases h : (startTable cs).lookup c.rowOffset with
  | some index => exact ⟨index, rfl⟩
  | none =>
    rw [List.lookup_eq_none_iff] at h
    have hne := h (c.rowOffset, c.index) (by simp only [startTable, List.mem_reverse, List.mem_map]
                                             exact ⟨c, hc, rfl⟩)
    simp at hne

/-- Of the chunks that start at a row, the map knows the last. -/
theorem le_of_lookup_startTable {cs : List ChunkMeta} {position : Nat} {start offset index : Int}
    (habut : Manifest.Abut position start cs) (h : (startTable cs).lookup offset = some index)
    {c : ChunkMeta} (hc : c ∈ cs) (hoffset : c.rowOffset = offset) : c.index ≤ index := by
  obtain ⟨later, earlier, heq, hlater⟩ := List.lookup_eq_some_iff.1 h
  have hrev : cs.map (fun c => (c.rowOffset, c.index)) =
      earlier.reverse ++ (offset, index) :: later.reverse := by
    rw [← List.reverse_reverse (cs.map _)]
    show (startTable cs).reverse = _
    simp [heq]
  have hpair : (cs.map fun c => (c.rowOffset, c.index)).Pairwise fun a b => a.2 < b.2 :=
    List.pairwise_map.2 (habut.pairwise.imp fun h => h.1)
  have hmem : (offset, c.index) ∈ cs.map fun c => (c.rowOffset, c.index) :=
    List.mem_map.2 ⟨c, hc, by rw [hoffset]⟩
  -- chunks listed before the one found have smaller indices, and those after it start elsewhere
  rw [hrev] at hpair hmem
  rcases List.mem_append.1 hmem with hearlier | hmem
  · have hlt := (List.pairwise_append.1 hpair).2.2 _ hearlier (offset, index) List.mem_cons_self
    exact Int.le_of_lt hlt
  · rcases List.mem_cons.1 hmem with hself | hlast
    · simp only [Prod.mk.injEq, true_and] at hself
      exact Int.le_of_eq hself
    · have hne := hlater _ (List.mem_reverse.1 hlast)
      simp at hne

/-! ## What the server means -/

/-- The files of a server for the chunks of a manifest. A chunk may have several, since an address is
made afresh for each query. -/
structure Listing (m : Manifest) where
  /-- The server lists a file for the chunk at a position. -/
  lists : Nat → ResultLink → Prop
  /-- Each chunk has a file. -/
  complete : ∀ {i : Nat} {c : ChunkMeta}, m.chunks[i]? = some c → ∃ f, lists i f
  /-- A file of a chunk starts where the chunk starts. -/
  starts : ∀ {i : Nat} {f : ResultLink}, lists i f →
    ∃ c, m.chunks[i]? = some c ∧ c.rowOffset = f.startRowOffset
  /-- The expirations of files are dates. -/
  dated : ∀ {i : Nat} {f : ResultLink}, lists i f → (Timestamp.ofMillis? f.expiryMillis).isSome
  /-- A link that came with the manifest leads to a file of its chunk. -/
  embedded : ∀ {i : Nat} {c : ChunkMeta} {l : Link}, m.chunks[i]? = some c → c.link = some l →
    ∃ f, lists i f ∧ f.toLink i = .ok l

theorem chunkIndex_of_toLink {f : ResultLink} {index : Int} {l : Link} (h : f.toLink index = .ok l) :
    l.chunkIndex = index := by
  unfold ResultLink.toLink at h
  split at h
  · simp at h
  · obtain rfl := Except.ok.inj h
    rfl

theorem toLink_of_dated {f : ResultLink} (h : (Timestamp.ofMillis? f.expiryMillis).isSome)
    (index : Int) : ∃ l, f.toLink index = .ok l := by
  obtain ⟨expiration, hdate⟩ := Option.isSome_iff_exists.1 h
  simp [ResultLink.toLink, hdate]

namespace Listing

variable {m : Manifest} (L : Listing m)

/-- A link for an index names it, and leads to a file that the server lists for this chunk. -/
def Holds (index : Int) (l : Link) : Prop :=
  l.chunkIndex = index ∧ ∃ (i : Nat) (f : ResultLink), index = i ∧ L.lists i f ∧ f.toLink i = .ok l

/-- Every link of a table is right. -/
def Vouches (t : LinkTable) : Prop :=
  ∀ (index : Int) (l : Link), t.find? index = some l → L.Holds index l

/-- Memory maps starts as the manifest has them, and keeps right links only. -/
structure Sound (mem : Memory) : Prop where
  starts : mem.chunkByOffset = startTable m.chunks
  links : L.Vouches mem.links

/-- An answer from a row on has a file of each chunk that starts there. What starts at the row of any
chunk is a file of such a chunk; what starts elsewhere may be anything. -/
structure Honest (offset : Int) (files : List ResultLink) : Prop where
  complete : ∀ {i : Nat} {c : ChunkMeta}, m.chunks[i]? = some c → c.rowOffset = offset →
    ∃ f ∈ files, L.lists i f
  owned : ∀ {f : ResultLink} {c : ChunkMeta}, f ∈ files → c ∈ m.chunks →
    c.rowOffset = f.startRowOffset → ∃ i, L.lists i f

end Listing

/-! ## A whole call -/

/-- What a call finds when the answer to its query comes: memory as other calls have left it, the
time, and the answer. -/
structure Reply where
  memory : Memory
  now : Timestamp
  files : Except FetchError (List ResultLink)

/-- The number of requests that a step has still to look at, with the one it asks for. -/
def Step.rank : Step → Nat
  | .ask _ p => p.pending.length + 1
  | .answer _ => 0

theorem rank_serve_le (mem : Memory) (now : Timestamp) (pending : List LinkRequest)
    (links : LinkTable) : (serve mem now pending links).rank ≤ pending.length := by
  induction pending generalizing links with
  | nil => exact Nat.le_refl 0
  | cons r rest ih =>
    rw [serve]
    split
    · exact Nat.le_succ_of_le (ih links)
    · split
      · exact Nat.le_succ_of_le (ih _)
      · exact Nat.le_refl _

theorem rank_accept_le (mem : Memory) (now : Timestamp) (r : LinkRequest) (p : Progress)
    (files : Except FetchError (List ResultLink)) :
    (accept mem now r p files).2.rank ≤ p.pending.length := by
  unfold accept
  split
  · exact Nat.zero_le _
  · split
    · exact Nat.zero_le _
    · split
      · exact rank_serve_le _ _ _ _
      · exact Nat.zero_le _

/-- Follow a call from a step to its end. -/
def call (reply : Memory → LinkRequest → Progress → Reply) (mem : Memory) :
    Step → Memory × Except FetchError LinkTable
  | .answer result => (mem, result)
  | .ask r p =>
    let a := reply mem r p
    let after := accept a.memory a.now r p a.files
    call reply after.1 after.2
termination_by s => s.rank
decreasing_by exact Nat.lt_succ_of_le (rank_accept_le _ _ _ _ _)

/-- A request names a chunk of a manifest and the row it starts at. -/
def Asks (m : Manifest) (r : LinkRequest) : Prop := ∃ c ∈ m.chunks, r = ⟨c.index, c.rowOffset⟩

instance (m : Manifest) (r : LinkRequest) : Decidable (Asks m r) :=
  inferInstanceAs (Decidable (∃ c ∈ m.chunks, r = ⟨c.index, c.rowOffset⟩))

namespace Listing

variable {m : Manifest} (L : Listing m)

/-- Each query is answered, and honestly, and the other calls leave right links. -/
structure Fair (reply : Memory → LinkRequest → Progress → Reply) : Prop where
  memory : ∀ {mem : Memory} (r : LinkRequest) (p : Progress),
    L.Sound mem → L.Sound (reply mem r p).memory
  files : ∀ (mem : Memory) (r : LinkRequest) (p : Progress),
    ∃ files, (reply mem r p).files = .ok files ∧ L.Honest r.rowOffset files

/-- A call ends with a link for each request, and the links that it answers with or that are kept
after it are right. -/
def Delivers (requests : List LinkRequest) (outcome : Memory × Except FetchError LinkTable) : Prop :=
  ∃ t, outcome.2 = .ok t ∧ (∀ r ∈ requests, t.has r.chunkIndex = true) ∧ L.Vouches t ∧
    L.Sound outcome.1

/-! ## Tables -/

theorem has_insert {t : LinkTable} {index i : Int} {l : Link} :
    (t.insert index l).has i = true ↔ i = index ∨ t.has i = true := by
  by_cases h : i = index
  · simp [LinkTable.has, h, LinkTable.find?_insert_self]
  · simp [LinkTable.has, h, LinkTable.find?_insert_of_ne]

variable {L}

theorem vouches_nil : L.Vouches [] := by
  intro index l h
  simp [LinkTable.find?] at h

theorem Vouches.insert {t : LinkTable} {index : Int} {l : Link} (ht : L.Vouches t)
    (hl : L.Holds index l) : L.Vouches (t.insert index l) := by
  intro i l' h
  by_cases hi : i = index
  · subst hi
    rw [LinkTable.find?_insert_self] at h
    obtain rfl := Option.some.inj h
    exact hl
  · rw [LinkTable.find?_insert_of_ne _ _ hi] at h
    exact ht _ _ h

theorem sound_ofManifest (hm : Laid m) (L : Listing m) (buffer : Int) :
    L.Sound (.ofManifest m buffer) where
  starts := by simp [Memory.ofManifest, Memory.chunkByOffset_foldl]
  links := by
    intro index l h
    rcases Memory.links_foldl m.chunks _ h with hnone | ⟨c, hc, hindex, hl⟩
    · simp [LinkTable.find?] at hnone
    · obtain ⟨i, hi⟩ := List.getElem?_of_mem hc
      obtain ⟨f, hf, hto⟩ := L.embedded hi hl
      have hpos := hm.abut.index_eq hi
      have hname : l.chunkIndex = i := chunkIndex_of_toLink hto
      exact ⟨by omega, i, f, by omega, hf, hto⟩

/-! ## One answer -/

theorem Sound.chunkAt_eq_some {mem : Memory} (hs : L.Sound mem) {offset index : Int}
    (h : mem.chunkAt offset = some index) : ∃ c ∈ m.chunks, c.rowOffset = offset ∧ c.index = index :=
  exists_of_lookup_startTable (by rwa [Memory.chunkAt, hs.starts] at h)

/-- The map finds a chunk at the rows where one starts. -/
theorem Sound.isSome_chunkAt {mem : Memory} (hs : L.Sound mem) (offset : Int) :
    (mem.chunkAt offset).isSome = m.chunks.any fun c => c.rowOffset = offset := by
  rw [Bool.eq_iff_iff, List.any_eq_true]
  constructor
  · intro h
    obtain ⟨index, hindex⟩ := Option.isSome_iff_exists.1 h
    obtain ⟨c, hc, hstart, -⟩ := hs.chunkAt_eq_some hindex
    exact ⟨c, hc, by simpa using hstart⟩
  · rintro ⟨c, hc, hstart⟩
    obtain ⟨index, hindex⟩ := lookup_startTable_isSome hc
    rw [← hs.starts, of_decide_eq_true hstart] at hindex
    exact Option.isSome_iff_exists.2 ⟨index, hindex⟩

/-- Where starts differ, the map finds the chunk of each start. -/
theorem Sound.chunkAt_start {mem : Memory} (hs : L.Sound mem) (hdiffer : StartsDiffer m)
    {c : ChunkMeta} (hc : c ∈ m.chunks) : mem.chunkAt c.rowOffset = some c.index := by
  obtain ⟨index, hindex⟩ := lookup_startTable_isSome hc
  rw [← hs.starts] at hindex
  obtain ⟨d, hd, hstart, rfl⟩ := hs.chunkAt_eq_some hindex
  rw [← hdiffer d hd c hc hstart]
  rwa [← hstart] at hindex

/-- A file of a chunk is kept as its link, where starts differ. -/
theorem Sound.link_of_lists {mem : Memory} (hm : Laid m) (hs : L.Sound mem)
    (hdiffer : StartsDiffer m) {i : Nat} {f : ResultLink} (hf : L.lists i f) :
    mem.chunkAt f.startRowOffset = some (i : Int) ∧ ∃ l, f.toLink i = .ok l ∧ L.Holds i l := by
  obtain ⟨c, hc, hstart⟩ := L.starts hf
  have hat := hs.chunkAt_start hdiffer (List.mem_of_getElem? hc)
  have hindex : c.index = i := by
    have hpos := hm.abut.index_eq hc
    omega
  obtain ⟨l, hl⟩ := toLink_of_dated (L.dated hf) i
  exact ⟨by rw [← hstart, hat, hindex], l, hl, chunkIndex_of_toLink hl, i, f, rfl, hf, hl⟩

/-- After an answer there is a link for a chunk if there was one before, or if the answer has a file that
is taken for it. -/
theorem has_keep {mem mem' : Memory} {links links' : LinkTable} {files : List ResultLink}
    (h : keep mem links files = (mem', .ok links')) (index : Int) :
    links'.has index = true ↔
      links.has index = true ∨ ∃ f ∈ files, mem.chunkAt f.startRowOffset = some index := by
  fun_induction keep mem links files with
  | case1 mem links =>
    simp only [Prod.mk.injEq, Except.ok.injEq] at h
    simp [h.2]
  | case2 mem links f rest hat ih => simp [ih h, hat]
  | case3 mem links f rest k hat fault hfault => simp at h
  | case4 mem links f rest k hat link hlink ih =>
    have hsame : ∀ row, Memory.chunkAt { mem with links := mem.links.insert k link } row =
      mem.chunkAt row := fun _ => rfl
    rw [ih h, has_insert]
    simp only [hsame, List.mem_cons, exists_eq_or_imp, hat, Option.some.injEq]
    tauto

/-- **An honest answer is kept without an error, and the links stay right.** -/
theorem keep_right {mem : Memory} {links : LinkTable} {files : List ResultLink} (hm : Laid m)
    (hdiffer : StartsDiffer m) (hs : L.Sound mem) (hv : L.Vouches links)
    (howned : ∀ {f : ResultLink} {c : ChunkMeta}, f ∈ files → c ∈ m.chunks →
      c.rowOffset = f.startRowOffset → ∃ i, L.lists i f) :
    ∃ mem' links', keep mem links files = (mem', .ok links') ∧ L.Sound mem' ∧ L.Vouches links' := by
  induction files generalizing mem links with
  | nil => exact ⟨mem, links, rfl, hs, hv⟩
  | cons f rest ih =>
    have hrest : ∀ {g : ResultLink} {c : ChunkMeta}, g ∈ rest → c ∈ m.chunks →
        c.rowOffset = g.startRowOffset → ∃ i, L.lists i g :=
      fun hg => howned (List.mem_cons_of_mem _ hg)
    cases hat : mem.chunkAt f.startRowOffset with
    | none =>
      rw [keep, hat]
      exact ih hs hv hrest
    | some index =>
      obtain ⟨c, hc, hstart, -⟩ := hs.chunkAt_eq_some hat
      obtain ⟨i, hlists⟩ := howned List.mem_cons_self hc hstart
      obtain ⟨hfound, l, hl, hholds⟩ := hs.link_of_lists hm hdiffer hlists
      obtain rfl : index = i := by
        rw [hat] at hfound
        exact Option.some.inj hfound
      rw [keep, hat]
      simp only [hl]
      exact ih ⟨hs.starts, hs.links.insert hholds⟩ (hv.insert hholds) hrest

/-- A file that starts where no chunk does changes nothing. -/
theorem keep_filter (mem : Memory) (links : LinkTable) (files : List ResultLink) :
    keep mem links (files.filter fun f => (mem.chunkAt f.startRowOffset).isSome) =
      keep mem links files := by
  fun_induction keep mem links files with
  | case1 mem links => rfl
  | case2 mem links f rest hat ih => simpa [hat] using ih
  | case3 mem links f rest k hat fault hfault => simp [hat, keep, hfault]
  | case4 mem links f rest k hat link hlink ih =>
    rw [List.filter_cons, hat]
    simp only [Option.isSome_some, if_true, keep, hat, hlink]
    exact ih

/-! ## A call with honest answers -/

/-- An honest answer to a request leaves a link for it. -/
theorem accept_right {mem : Memory} {p : Progress} {r : LinkRequest} {files : List ResultLink}
    (hm : Laid m) (hdiffer : StartsDiffer m) (hs : L.Sound mem) (hv : L.Vouches p.links)
    (hr : Asks m r) (hfiles : L.Honest r.rowOffset files) (now : Timestamp) :
    ∃ mem' links', accept mem now r p (.ok files) = (mem', next mem' now ⟨p.pending, links'⟩) ∧
      L.Sound mem' ∧ L.Vouches links' ∧ links'.has r.chunkIndex = true ∧
      ∀ index, p.links.has index = true → links'.has index = true := by
  obtain ⟨mem', links', hkeep, hs', hv'⟩ := keep_right hm hdiffer hs hv hfiles.owned
  have hhas := has_keep hkeep
  obtain ⟨c, hc, rfl⟩ := hr
  -- the answer has a file of the chunk that was asked for, and the map takes it for this chunk
  obtain ⟨i, hi⟩ := List.getElem?_of_mem hc
  obtain ⟨f, hf, hlists⟩ := hfiles.complete hi rfl
  have hasked : links'.has c.index = true := by
    obtain ⟨d, hd, hstart⟩ := L.starts hlists
    obtain rfl : c = d := Option.some.inj (hi.symm.trans hd)
    exact (hhas _).2 (Or.inr ⟨f, hf, hstart ▸ hs.chunkAt_start hdiffer hc⟩)
  refine ⟨mem', links', ?_, hs', hv', hasked, fun index h => (hhas index).2 (Or.inl h)⟩
  simp only [accept, hkeep]
  rw [if_pos hasked]

/-- A call ends with right links: for the chunks that it had links for, and for the requests that were
left. -/
def Completes (L : Listing m) (links : LinkTable) (pending : List LinkRequest)
    (outcome : Memory × Except FetchError LinkTable) : Prop :=
  ∃ t, outcome.2 = .ok t ∧ L.Vouches t ∧ L.Sound outcome.1 ∧
    (∀ index, links.has index = true → t.has index = true) ∧
    ∀ r ∈ pending, t.has r.chunkIndex = true

theorem Completes.cons {links links' : LinkTable} {r : LinkRequest} {rest : List LinkRequest}
    {outcome : Memory × Except FetchError LinkTable} (h : L.Completes links' rest outcome)
    (hr : links'.has r.chunkIndex = true)
    (hmono : ∀ index, links.has index = true → links'.has index = true) :
    L.Completes links (r :: rest) outcome := by
  obtain ⟨t, ht, hv, hs, hkept, hrest⟩ := h
  refine ⟨t, ht, hv, hs, fun index h => hkept index (hmono index h), fun r' hr' => ?_⟩
  rcases List.mem_cons.1 hr' with rfl | hr'
  · exact hkept _ hr
  · exact hrest r' hr'

/-- **From any point on, a call ends with right links for all that it still has to look at.** -/
theorem call_serve {reply : Memory → LinkRequest → Progress → Reply} (hm : Laid m)
    (hdiffer : StartsDiffer m) (hfair : L.Fair reply) {mem : Memory} (now : Timestamp)
    {pending : List LinkRequest} {links : LinkTable} (hs : L.Sound mem) (hv : L.Vouches links)
    (hr : ∀ r ∈ pending, Asks m r) :
    L.Completes links pending (call reply mem (serve mem now pending links)) := by
  -- on the requests that are left; memory is not the one that the call began with, only a right one
  induction pending generalizing mem now links with
  | nil =>
    rw [serve, call]
    exact ⟨links, rfl, hv, hs, fun _ h => h, by simp⟩
  | cons r rest ih =>
    have hrest : ∀ r ∈ rest, Asks m r := fun r h => hr r (List.mem_cons_of_mem _ h)
    by_cases hhas : links.has r.chunkIndex = true
    · rw [serve, if_pos hhas]
      exact (ih now hs hv hrest).cons hhas fun _ h => h
    · rw [serve, if_neg hhas]
      cases hfresh : mem.fresh now r.chunkIndex with
      | some l =>
        have hfound : mem.links.find? r.chunkIndex = some l :=
          (Option.filter_eq_some_iff.1 hfresh).1
        have hnew : (links.insert r.chunkIndex l).has r.chunkIndex = true :=
          has_insert.2 (Or.inl rfl)
        exact (ih now hs (hv.insert (hs.links _ _ hfound)) hrest).cons hnew
          fun index h => has_insert.2 (Or.inr h)
      | none =>
        -- while the query is under way, other calls may use the memory and time passes
        obtain ⟨files, hanswer, hhonest⟩ := hfair.files mem r ⟨rest, links⟩
        obtain ⟨mem', links', haccept, hs', hv', hasked, hmono⟩ :=
          accept_right (p := ⟨rest, links⟩) hm hdiffer (hfair.memory r ⟨rest, links⟩ hs) hv
            (hr r List.mem_cons_self) hhonest (reply mem r ⟨rest, links⟩).now
        simp only [call, hanswer, haccept]
        exact (ih _ hs' hv' hrest).cons hasked hmono

/-! ## An empty chunk in the middle -/

/-- The answer that lists a file for each chunk. -/
theorem exists_full_answer (L : Listing m) : ∃ files, ∀ offset, L.Honest offset files := by
  have hfile : ∀ i : Fin m.chunks.length, ∃ f, L.lists i f := fun i =>
    L.complete (List.getElem?_eq_getElem i.2)
  choose file hlists using hfile
  refine ⟨List.ofFn file, fun offset => ⟨?_, ?_⟩⟩
  · intro i c hc _
    have hi := (List.getElem?_eq_some_iff.1 hc).1
    exact ⟨file ⟨i, hi⟩, List.mem_ofFn.2 ⟨_, rfl⟩, hlists ⟨i, hi⟩⟩
  · intro f c hf _ _
    obtain ⟨i, rfl⟩ := List.mem_ofFn.1 hf
    exact ⟨i, hlists i⟩

/-- A time at which no link is fresh that memory keeps for a chunk. -/
theorem exists_stale (mem : Memory) (index : Int) : ∃ now, mem.fresh now index = none := by
  cases h : mem.links.find? index with
  | none => exact ⟨⟨0, 0⟩, by rw [Memory.fresh, h]; rfl⟩
  | some l =>
    refine ⟨⟨l.expiration.secs - mem.expiryBuffer + 1, 0⟩, ?_⟩
    have hpassed : l.expiration.secs < l.expiration.secs - mem.expiryBuffer + 1 + mem.expiryBuffer := by
      omega
    simp [Memory.fresh, h, Link.isFresh, Link.isExpired, Timestamp.notBefore, Timestamp.addSecs,
      hpassed]

/-- The file of a chunk that the map does not know is taken for another, so a query for this chunk
fails. -/
theorem accept_unmapped {mem : Memory} {r : LinkRequest}
    (hmap : ∀ offset, mem.chunkAt offset ≠ some r.chunkIndex) (now : Timestamp)
    (pending : List LinkRequest) (files : List ResultLink) :
    ∃ mem' e, accept mem now r ⟨pending, []⟩ (.ok files) = (mem', .answer (.error e)) := by
  rcases hkeep : keep mem [] files with ⟨mem', e | links'⟩
  · exact ⟨mem', e, by simp only [accept, hkeep]⟩
  · have hlacks : ¬ links'.has r.chunkIndex = true := by
      intro h
      rcases (has_keep hkeep _).1 h with hnil | ⟨f, -, hf⟩
      · simp [LinkTable.has, LinkTable.find?] at hnil
      · exact hmap _ hf
    refine ⟨mem', .invalidManifest (.noLinkReturned r.chunkIndex), ?_⟩
    simp only [accept, hkeep]
    rw [if_neg hlacks]

/-- The map does not know an empty chunk that another follows. -/
theorem Sound.chunkAt_ne_of_empty {mem : Memory} (hm : Laid m) (hs : L.Sound mem) {i : Nat}
    {c : ChunkMeta} (hc : m.chunks[i]? = some c) (hi : i + 1 < m.count) (hempty : ¬ 0 < c.rowCount)
    (offset : Int) : mem.chunkAt offset ≠ some c.index := by
  intro h
  obtain ⟨d, hd⟩ : ∃ d, m.chunks[i + 1]? = some d := ⟨_, List.getElem?_eq_getElem hi⟩
  have hci := hm.abut.index_eq hc
  have hdi := hm.abut.index_eq hd
  obtain ⟨c', hc', hstart, hindex⟩ := hs.chunkAt_eq_some h
  obtain ⟨j, hj⟩ := List.getElem?_of_mem hc'
  have hcj := hm.abut.index_eq hj
  obtain rfl : i = j := by omega
  obtain rfl : c = c' := Option.some.inj (hc.symm.trans hj)
  -- the chunk after it starts at the same row, and it is the later one that is found
  have hnext := hm.abut.next_start hc hd
  have hrows := (hm.abut.size_nonneg hc').1
  rw [Memory.chunkAt, hs.starts] at h
  have hle := le_of_lookup_startTable hm.abut h (List.mem_of_getElem? hd) (by omega)
  push_cast at hdi
  omega

/-! ## Which results can be resolved -/

/-- **The resolver starts with right links, a file at a row where no chunk starts changes nothing, and
every call under honest answers brings a right link for each of its requests and keeps right links
only, exactly if no chunk of the manifest but the last is empty.** -/
theorem links_reach_chunks_iff {total : Int} {codec : Codec} {format : Format}
    {cs : List ChunkMeta} {m : Manifest} (hm : Manifest.ofChunks total codec format cs = .ok m)
    (L : Listing m) :
    (∀ buffer, L.Sound (.ofManifest m buffer)) ∧
      (∀ mem now r p files, L.Sound mem →
        accept mem now r p (.ok files) = accept mem now r p
          (.ok (files.filter fun f => m.chunks.any fun c => c.rowOffset = f.startRowOffset))) ∧
      ((∀ reply mem now requests, L.Fair reply → L.Sound mem → (∀ r ∈ requests, Asks m r) →
          L.Delivers requests (call reply mem (next mem now (start requests)))) ↔
        OnlyLastEmpty m) := by
  obtain ⟨-, hlaid⟩ := Manifest.ofChunks_eq_ok_iff.1 hm
  refine ⟨sound_ofManifest hlaid L, ?_, ?_, ?_⟩
  · intro mem now r p files hs
    have hstarts : (fun f : ResultLink => (mem.chunkAt f.startRowOffset).isSome) =
        fun f => m.chunks.any fun c => c.rowOffset = f.startRowOffset := by
      funext f
      exact hs.isSome_chunkAt f.startRowOffset
    simp only [accept, ← hstarts, keep_filter]
  · intro hall i c hc hi
    by_contra hempty
    -- the empty chunk is asked for alone, when its kept link is stale, and all files are listed
    have hs := sound_ofManifest hlaid L Link.defaultBuffer
    obtain ⟨files, hhonest⟩ := exists_full_answer L
    obtain ⟨now, hstale⟩ := exists_stale (.ofManifest m Link.defaultBuffer) c.index
    have hfair : L.Fair fun mem _ _ => ⟨mem, now, .ok files⟩ :=
      ⟨fun _ _ h => h, fun _ r _ => ⟨files, rfl, hhonest r.rowOffset⟩⟩
    obtain ⟨t, ht, -⟩ := hall _ _ now [⟨c.index, c.rowOffset⟩] hfair hs (by
      intro r hr
      exact ⟨c, List.mem_of_getElem? hc, List.mem_singleton.1 hr⟩)
    obtain ⟨mem', e, haccept⟩ := accept_unmapped (r := ⟨c.index, c.rowOffset⟩)
      (hs.chunkAt_ne_of_empty hlaid hc hi hempty) now [] files
    have hask : next (.ofManifest m Link.defaultBuffer) now (start [⟨c.index, c.rowOffset⟩]) =
        .ask ⟨c.index, c.rowOffset⟩ ⟨[], []⟩ := by
      simp [next, start, serve, hstale, LinkTable.has, LinkTable.find?]
    rw [hask, call] at ht
    simp only [haccept] at ht
    rw [call] at ht
    simp at ht
  · intro hlast reply mem now requests hfair hs hr
    have hdiffer := hlaid.startsDiffer_iff.2 hlast
    have hpending : ∀ r ∈ (start requests).pending, Asks m r :=
      fun r h => hr r (List.mem_mergeSort.1 h)
    obtain ⟨t, ht, hv, hs', -, hrequests⟩ :=
      call_serve hlaid hdiffer hfair now hs vouches_nil hpending
    exact ⟨t, ht, fun r h => hrequests r (List.mem_mergeSort.2 h), hv, hs'⟩

/-! ## Two samples -/

/-- The file of a sample chunk. -/
def chunkFile (c : ChunkMeta) : ResultLink :=
  { fileLink := s!"https://storage/chunk{c.index}", expiryMillis := 4102444800000
    startRowOffset := c.rowOffset, rowCount := c.rowCount, byteCount := c.byteCount, headers := [] }

/-- A server with one file for each chunk of a manifest without links. -/
def plain (m : Manifest) (h : ∀ c ∈ m.chunks, c.link = none) : Listing m where
  lists i f := ∃ c, m.chunks[i]? = some c ∧ f = chunkFile c
  complete := fun hc => ⟨_, _, hc, rfl⟩
  starts := by
    rintro i f ⟨c, hc, rfl⟩
    exact ⟨c, hc, rfl⟩
  dated := by
    rintro i f ⟨c, -, rfl⟩
    show (Timestamp.ofMillis? 4102444800000).isSome
    decide
  embedded := by
    intro i c l hc hl
    rw [h c (List.mem_of_getElem? hc)] at hl
    cases hl

/-- Every query is answered with the files of all chunks. -/
def answerAll (m : Manifest) (mem : Memory) (_ : LinkRequest) (_ : Progress) : Reply :=
  ⟨mem, ⟨0, 0⟩, .ok (m.chunks.map chunkFile)⟩

theorem fair_answerAll (m : Manifest) (h : ∀ c ∈ m.chunks, c.link = none) :
    (plain m h).Fair (answerAll m) where
  memory := fun _ _ hs => hs
  files := by
    intro mem r p
    refine ⟨_, rfl, ?_, ?_⟩
    · intro i c hc _
      exact ⟨chunkFile c, List.mem_map.2 ⟨c, List.mem_of_getElem? hc, rfl⟩, c, hc, rfl⟩
    · intro f c hf _ _
      obtain ⟨d, hd, rfl⟩ := List.mem_map.1 hf
      obtain ⟨i, hi⟩ := List.getElem?_of_mem hd
      exact ⟨i, d, hi, rfl⟩

/-- An empty chunk, and one of two rows after it. -/
def emptyFirst : Manifest := ⟨2, .none, .arrowStream, [⟨0, 0, 0, 0, none⟩, ⟨1, 0, 2, 16, none⟩]⟩

/-- A chunk of two rows, and an empty one after it. -/
def emptyLast : Manifest := ⟨2, .none, .arrowStream, [⟨0, 0, 2, 16, none⟩, ⟨1, 2, 0, 0, none⟩]⟩

theorem emptyFirst_plain : ∀ c ∈ emptyFirst.chunks, c.link = none := by decide

theorem emptyLast_plain : ∀ c ∈ emptyLast.chunks, c.link = none := by decide

theorem ofChunks_emptyFirst :
    Manifest.ofChunks 2 .none .arrowStream emptyFirst.chunks = .ok emptyFirst :=
  Manifest.ofChunks_of_checkChunks (by decide) _ _

theorem ofChunks_emptyLast :
    Manifest.ofChunks 2 .none .arrowStream emptyLast.chunks = .ok emptyLast :=
  Manifest.ofChunks_of_checkChunks (by decide) _ _

/-- Both files are listed, but the file of the empty chunk is taken for the one after it. -/
theorem empty_chunk_unresolved :
    Manifest.ofChunks 2 .none .arrowStream emptyFirst.chunks = .ok emptyFirst ∧
      (plain emptyFirst emptyFirst_plain).Fair (answerAll emptyFirst) ∧
      (∀ r ∈ ([⟨0, 0⟩, ⟨1, 0⟩] : List LinkRequest), Asks emptyFirst r) ∧
      (call (answerAll emptyFirst) (.ofManifest emptyFirst 30)
        (next (.ofManifest emptyFirst 30) ⟨0, 0⟩ (start [⟨0, 0⟩, ⟨1, 0⟩]))).2 =
          .error (.invalidManifest (.noLinkReturned 0)) := by
  refine ⟨ofChunks_emptyFirst, fair_answerAll _ _, by decide, ?_⟩
  have hstart : start [⟨0, 0⟩, ⟨1, 0⟩] = ⟨[⟨0, 0⟩, ⟨1, 0⟩], []⟩ := by
    simp [start, List.mergeSort_of_pairwise]
  have hask : next (.ofManifest emptyFirst 30) ⟨0, 0⟩ ⟨[⟨0, 0⟩, ⟨1, 0⟩], []⟩ =
      .ask ⟨0, 0⟩ ⟨[⟨1, 0⟩], []⟩ := by
    rfl
  have haccept : (accept (.ofManifest emptyFirst 30) ⟨0, 0⟩ ⟨0, 0⟩ ⟨[⟨1, 0⟩], []⟩
      (.ok (emptyFirst.chunks.map chunkFile))).2 =
        .answer (.error (.invalidManifest (.noLinkReturned 0))) := by
    rfl
  rw [hstart, hask, call]
  simp only [answerAll, haccept, call]

/-- An empty chunk at the end gets the link to its own file. -/
theorem empty_last_resolved :
    (plain emptyLast emptyLast_plain).Delivers [⟨0, 0⟩, ⟨1, 2⟩]
      (call (answerAll emptyLast) (.ofManifest emptyLast 30)
        (next (.ofManifest emptyLast 30) ⟨0, 0⟩ (start [⟨0, 0⟩, ⟨1, 2⟩]))) := by
  obtain ⟨hsound, -, hcalls⟩ :=
    links_reach_chunks_iff ofChunks_emptyLast (plain emptyLast emptyLast_plain)
  have hlast : OnlyLastEmpty emptyLast := by
    intro i c hc hi
    obtain rfl : i = 0 := by
      simp [Manifest.count, emptyLast] at hi
      omega
    obtain rfl := Option.some.inj hc
    decide
  exact hcalls.2 hlast _ _ _ _ (fair_answerAll _ _) (hsound 30) (by decide)

end Listing

end ResultChunks.Rpc.Resolver
