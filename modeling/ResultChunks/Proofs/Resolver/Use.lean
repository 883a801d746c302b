import ResultChunks.Proofs.Resolver.Rpc
import ResultChunks.Proofs.Resolver.Table

/-!
# A resolver in use

Memory is filled by answers to any call, also by answers that the call fails with. `Use` is a resolver
in use: calls begin at any time, answers come in any order, and the log has all that happened. What
memory holds for a chunk is the last link that the log knows (`Remembers`), and what a call has
obtained can be read off the log as well.
-/

namespace ResultChunks.Rpc.Resolver

open LinkTable (insertAll lastFor)

/-! ## What an answer is kept as -/

/-- The chunk that starts at a row. Of chunks that start at one row it is the last. -/
def startsAt (man : Manifest) (offset : Int) : Option Int := (startTable man.chunks).lookup offset

/-- Put links into memory. -/
def Memory.remember (m : Memory) (es : List (Int × Link)) : Memory :=
  { m with links := m.links.insertAll es }

/-- The links of files by the chunks that start where they do, up to the first malformed expiry. -/
def kept (chunkAt : Int → Option Int) : List ResultLink → List (Int × Link)
  | [] => []
  | f :: rest =>
    match chunkAt f.startRowOffset with
    | none => kept chunkAt rest
    | some index =>
      match f.toLink index with
      | .error _ => []
      | .ok l => (index, l) :: kept chunkAt rest

/-- The links that an answer brings. -/
def brought (chunkAt : Int → Option Int) : Except FetchError (List ResultLink) → List (Int × Link)
  | .ok files => kept chunkAt files
  | .error _ => []

theorem remember_remember (m : Memory) (es fs : List (Int × Link)) :
    (m.remember es).remember fs = m.remember (es ++ fs) := by
  simp only [Memory.remember, LinkTable.insertAll_append]

/-- What is kept of files goes into memory, and into the links of the call if none is malformed. -/
theorem keep_kept (m : Memory) (links : LinkTable) (files : List ResultLink) :
    (keep m links files).1 = m.remember (kept m.chunkAt files) ∧
      ∀ t, (keep m links files).2 = .ok t → t = links.insertAll (kept m.chunkAt files) := by
  fun_induction keep m links files with
  | case1 m links => exact ⟨rfl, fun t ht => (Except.ok.inj ht).symm⟩
  | case2 m links f rest hat ih => simpa [kept, hat] using ih
  | case3 m links f rest index hat fault hfault =>
    refine ⟨?_, fun t ht => ?_⟩
    · simp [kept, hat, hfault, Memory.remember, insertAll]
    · cases ht
  | case4 m links f rest index hat l hl ih =>
    have hsame : Memory.chunkAt { m with links := m.links.insert index l } = m.chunkAt := rfl
    rw [hsame] at ih
    simpa [kept, hat, hl, Memory.remember, insertAll] using ih

/-- The links that requests are served with from memory, up to the first that needs a query. -/
def served (m : Memory) (now : Timestamp) : List LinkRequest → LinkTable → List (Int × Link)
  | [], _ => []
  | r :: rest, links =>
    if links.has r.chunkIndex then served m now rest links
    else
      match m.fresh now r.chunkIndex with
      | some l => (r.chunkIndex, l) :: served m now rest (links.insert r.chunkIndex l)
      | none => []

/-- The links that are served from memory after an answer. -/
def servedAfter (m : Memory) (now : Timestamp) (r : LinkRequest) (p : Progress) :
    Except FetchError (List ResultLink) → List (Int × Link)
  | .error _ => []
  | .ok files =>
    match keep m p.links files with
    | (_, .error _) => []
    | (m, .ok links) => if links.has r.chunkIndex then served m now p.pending links else []

/-- **What taking an answer does: memory has the links it brings, and the call fails or goes on with
them.** -/
theorem accept_cases (m : Memory) (now : Timestamp) (r : LinkRequest) (p : Progress)
    (answer : Except FetchError (List ResultLink)) :
    let m' := m.remember (brought m.chunkAt answer)
    let links := p.links.insertAll (brought m.chunkAt answer)
    (∃ e, accept m now r p answer = (m', .answer (.error e)) ∧
        servedAfter m now r p answer = []) ∨
      links.has r.chunkIndex = true ∧
        accept m now r p answer = (m', next m' now ⟨p.pending, links⟩) ∧
        servedAfter m now r p answer = served m' now p.pending links := by
  cases answer with
  | error e => exact Or.inl ⟨e, rfl, rfl⟩
  | ok files =>
    obtain ⟨hmemory, hlinks⟩ := keep_kept m p.links files
    simp only [accept, servedAfter, brought]
    rcases hkeep : keep m p.links files with ⟨m', e | links⟩
    · rw [hkeep] at hmemory
      obtain rfl := hmemory
      exact Or.inl ⟨e, rfl, rfl⟩
    · rw [hkeep] at hmemory hlinks
      obtain rfl := hmemory
      obtain rfl := hlinks links rfl
      by_cases hhas : (p.links.insertAll (kept m.chunkAt files)).has r.chunkIndex = true
      · exact Or.inr ⟨hhas, by simp only [if_pos hhas], by simp only [if_pos hhas]⟩
      · exact Or.inl ⟨.invalidManifest (.noLinkReturned r.chunkIndex), by simp only [if_neg hhas],
          by simp only [if_neg hhas]⟩

/-! ## A resolver in use -/

/-- Something that happens in a call. -/
inductive Event where
  /-- The call begins. -/
  | began (call : Nat) (requests : List LinkRequest)
  /-- A chunk gets a link from memory. -/
  | served (call : Nat) (now : Timestamp) (index : Int) (link : Link)
  /-- The server is asked for the files from the row of a request on. -/
  | asked (call : Nat) (now : Timestamp) (request : LinkRequest)
  /-- The answer of the server comes. -/
  | heard (call : Nat) (answer : Except FetchError (List ResultLink))
  /-- The call ends. -/
  | returned (call : Nat) (result : Except FetchError LinkTable)

namespace Event

/-- The call that an event is of. -/
def call : Event → Nat
  | .began k _ | .served k _ _ _ | .asked k _ _ | .heard k _ | .returned k _ => k

/-- What a call does after looking at its requests. -/
def ofStep (k : Nat) (now : Timestamp) : Step → Event
  | .ask r _ => .asked k now r
  | .answer result => .returned k result

/-- The links that an event brings into memory. -/
def stores (man : Manifest) : Event → List (Int × Link)
  | .heard _ answer => brought (startsAt man) answer
  | _ => []

/-- The links that a call has from an event. -/
def obtains (man : Manifest) (k : Nat) : Event → List (Int × Link)
  | .served j _ index l => if j = k then [(index, l)] else []
  | .heard j answer => if j = k then brought (startsAt man) answer else []
  | _ => []

end Event

/-- Calls of a resolver, by their numbers, and all that happened. -/
structure Use where
  memory : Memory
  calls : List Step
  log : List Event

/-- What can happen next. -/
inductive Action where
  /-- A call begins. -/
  | begin (now : Timestamp) (requests : List LinkRequest)
  /-- An answer comes for a call. -/
  | hear (call : Nat) (now : Timestamp) (answer : Except FetchError (List ResultLink))

/-- The events of a call that looks at its requests. -/
def trail (k : Nat) (now : Timestamp) (es : List (Int × Link)) (s : Step) : List Event :=
  es.map (fun e => .served k now e.1 e.2) ++ [.ofStep k now s]

/-- The use after something happened. An answer for a call that does not wait for one is dropped. -/
def Use.act (u : Use) : Action → Use
  | .begin now requests =>
    let k := u.calls.length
    let p := start requests
    let s := next u.memory now p
    { memory := u.memory
      calls := u.calls ++ [s]
      log := u.log ++ .began k requests :: trail k now (served u.memory now p.pending p.links) s }
  | .hear k now answer =>
    match u.calls[k]? with
    | some (.ask r p) =>
      let after := accept u.memory now r p answer
      { memory := after.1
        calls := u.calls.set k after.2
        log := u.log ++ .heard k answer ::
          trail k now (servedAfter u.memory now r p answer) after.2 }
    | _ => u

/-- A resolver for the chunks of a manifest, in use. -/
def Use.run (man : Manifest) (buffer : Int) (actions : List Action) : Use :=
  actions.foldl Use.act ⟨.ofManifest man buffer, [], []⟩

/-! ## What the log knows -/

/-- The links that came with a manifest. -/
def embedded (cs : List ChunkMeta) : List (Int × Link) :=
  cs.filterMap fun c => c.link.map fun l => (c.index, l)

/-- The links that answers brought, whatever became of the calls. -/
def stored (man : Manifest) (log : List Event) : List (Int × Link) := log.flatMap (Event.stores man)

/-- The link last known for a chunk: from an answer, or else from the manifest. -/
def known (man : Manifest) (log : List Event) (index : Int) : Option Link :=
  lastFor (embedded man.chunks ++ stored man log) index

/-- The links that a call has, in the order in which it got them. -/
def obtained (man : Manifest) (k : Nat) (log : List Event) : List (Int × Link) :=
  log.flatMap (Event.obtains man k)

/-- A request is one of those that a call began with. -/
def Requested (k : Nat) (log : List Event) (r : LinkRequest) : Prop :=
  ∃ requests, .began k requests ∈ log ∧ r ∈ requests

/-- Memory is what the log knows. -/
def Remembers (man : Manifest) (buffer : Int) (log : List Event) (m : Memory) : Prop :=
  m = (Memory.ofManifest man buffer).remember (stored man log)

section

variable {man : Manifest} {buffer : Int} {log es : List Event} {e : Event} {k : Nat}

theorem stored_append (log es : List Event) :
    stored man (log ++ es) = stored man log ++ stored man es :=
  List.flatMap_append

theorem obtained_append (k : Nat) (log es : List Event) :
    obtained man k (log ++ es) = obtained man k log ++ obtained man k es :=
  List.flatMap_append

theorem Requested.append {r : LinkRequest} (h : Requested k log r) (es : List Event) :
    Requested k (log ++ es) r := by
  obtain ⟨requests, hbegan, hr⟩ := h
  exact ⟨requests, List.mem_append_left _ hbegan, hr⟩

/-- A call has nothing from the events of others. -/
theorem obtained_of_ne (h : ∀ e ∈ es, e.call ≠ k) : obtained man k es = [] := by
  refine List.flatMap_eq_nil_iff.2 ?_
  intro e he
  have hne := h e he
  cases e with
  | served j now index l => exact if_neg hne
  | heard j answer => exact if_neg hne
  | _ => rfl

variable (man) in
/-- A look at the requests is of one call, and brings nothing into memory. -/
theorem of_mem_trail {now : Timestamp} {fs : List (Int × Link)} {s : Step}
    (h : e ∈ trail k now fs s) : e.call = k ∧ e.stores man = [] := by
  rcases List.mem_append.1 h with hserved | hlast
  · obtain ⟨f, -, rfl⟩ := List.mem_map.1 hserved
    exact ⟨rfl, rfl⟩
  · rw [List.mem_singleton.1 hlast]
    cases s with
    | ask r p => exact ⟨rfl, rfl⟩
    | answer result => exact ⟨rfl, rfl⟩

theorem stored_trail (man : Manifest) (k : Nat) (now : Timestamp) (fs : List (Int × Link)) (s : Step) :
    stored man (trail k now fs s) = [] :=
  List.flatMap_eq_nil_iff.2 fun _ he => (of_mem_trail man he).2

theorem stored_heard (man : Manifest) (k : Nat) (answer : Except FetchError (List ResultLink)) :
    stored man [.heard k answer] = brought (startsAt man) answer := by
  simp [stored, Event.stores]

/-- A call has links from memory and from answers that came for it. -/
theorem mem_obtained {index : Int} {l : Link} (h : (index, l) ∈ obtained man k log) :
    (∃ files, .heard k (.ok files) ∈ log ∧ (index, l) ∈ kept (startsAt man) files) ∨
      ∃ now, .served k now index l ∈ log := by
  obtain ⟨e, he, hl⟩ := List.mem_flatMap.1 h
  cases e with
  | served j now index' l' =>
    by_cases hj : j = k
    · subst hj
      simp only [Event.obtains, if_true, List.mem_singleton, Prod.mk.injEq] at hl
      obtain ⟨rfl, rfl⟩ := hl
      exact Or.inr ⟨now, he⟩
    · simp [Event.obtains, hj] at hl
  | heard j answer =>
    by_cases hj : j = k
    · subst hj
      cases answer with
      | error e => simp [Event.obtains, brought] at hl
      | ok files => exact Or.inl ⟨files, he, by simpa [Event.obtains, brought] using hl⟩
    · simp [Event.obtains, hj] at hl
  | _ => simp [Event.obtains] at hl

/-! ## Memory -/

theorem links_foldl_addChunk (cs : List ChunkMeta) (m : Memory) :
    (cs.foldl Memory.addChunk m).links = m.links.insertAll (embedded cs) := by
  induction cs generalizing m with
  | nil => rfl
  | cons c cs ih =>
    cases hc : c.link with
    | none => simp [ih, Memory.addChunk, embedded, hc]
    | some l => simp [ih, Memory.addChunk, embedded, hc, insertAll]

theorem expiryBuffer_foldl (cs : List ChunkMeta) (m : Memory) :
    (cs.foldl Memory.addChunk m).expiryBuffer = m.expiryBuffer := by
  induction cs generalizing m with
  | nil => rfl
  | cons c cs ih => exact ih (m.addChunk c)

namespace Remembers

variable {m : Memory}

theorem chunkAt (h : Remembers man buffer log m) : m.chunkAt = startsAt man := by
  subst h
  funext offset
  simp [Memory.chunkAt, Memory.remember, Memory.ofManifest, Memory.chunkByOffset_foldl, startsAt]

theorem find? (h : Remembers man buffer log m) (index : Int) :
    m.links.find? index = known man log index := by
  subst h
  have hlinks : (Memory.ofManifest man buffer).links = insertAll [] (embedded man.chunks) :=
    links_foldl_addChunk _ _
  rw [Memory.remember, hlinks, ← LinkTable.insertAll_append, LinkTable.find?_insertAll_nil, known]

/-- Memory has a fresh link if the last one known is fresh. -/
theorem fresh (h : Remembers man buffer log m) (now : Timestamp) (index : Int) :
    m.fresh now index = (known man log index).filter fun l => l.isFresh now buffer := by
  have hbuffer : m.expiryBuffer = buffer := by
    subst h
    exact expiryBuffer_foldl _ _
  rw [Memory.fresh, h.find?, hbuffer]

theorem append (h : Remembers man buffer log m) (es : List Event) :
    Remembers man buffer (log ++ es) (m.remember (stored man es)) := by
  rw [Remembers, stored_append, ← remember_remember, ← h]

theorem of_stored_nil (h : Remembers man buffer log m) (hes : stored man es = []) :
    Remembers man buffer (log ++ es) m := by
  have happend := h.append es
  rw [hes] at happend
  exact happend

end Remembers

/-- A link that an answer brought is the one known until another for its chunk comes. -/
theorem known_of_heard {n : Nat} {files : List ResultLink} {index : Int} {l : Link}
    (hn : log[n]? = some (.heard k (.ok files)))
    (hl : lastFor (kept (startsAt man) files) index = some l)
    (hlater : lastFor (stored man (log.drop (n + 1))) index = none) :
    known man log index = some l := by
  obtain ⟨hlt, hget⟩ := List.getElem?_eq_some_iff.1 hn
  have hsplit : log = log.take n ++ .heard k (.ok files) :: log.drop (n + 1) := by
    rw [← hget, List.getElem_cons_drop, List.take_append_drop]
  rw [known, hsplit, stored_append, ← List.singleton_append, stored_append, stored_heard]
  simp only [LinkTable.lastFor_append, hlater, brought, hl]
  rfl

end

end ResultChunks.Rpc.Resolver
