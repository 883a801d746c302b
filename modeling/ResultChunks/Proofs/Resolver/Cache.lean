import ResultChunks.Proofs.Resolver.Use

/-!
# Fresh links and stale ones

Links in memory go stale, and a call keeps what it has got. `Right` says for each event what is so of the
log before it: a query is for a chunk that the call has no link for and whose last known link is not
fresh, and a link is served while it is fresh. `Looks` and `Waits` say where a call stands; one look
at its requests and one answer keep this, and with the other calls, that know nothing of it, so does
any use.
-/

namespace ResultChunks.Rpc.Resolver

open LinkTable (insertAll lastFor)

/-- What an event says about the log before it. -/
def Right (man : Manifest) (buffer : Int) (log : List Event) : Event → Prop
  | .served k now index l =>
    known man log index = some l ∧ l.isFresh now buffer = true ∧
      lastFor (obtained man k log) index = none
  | .asked k now r =>
    Requested k log r ∧ (∀ now' r', .asked k now' r' ∈ log → r'.chunkIndex ≠ r.chunkIndex) ∧
      lastFor (obtained man k log) r.chunkIndex = none ∧
      ∀ l, known man log r.chunkIndex = some l → l.isFresh now buffer = false
  | .returned k (.ok t) => t = insertAll [] (obtained man k log)
  | _ => True

/-- Each event of a log is right after the events before it. -/
def AllRight (man : Manifest) (buffer : Int) (log : List Event) : Prop :=
  ∀ n e, log[n]? = some e → Right man buffer (log.take n) e

/-- Where a call stands that looks at its requests. -/
structure Looks (man : Manifest) (k : Nat) (log : List Event) (pending : List LinkRequest)
    (links : LinkTable) : Prop where
  got : links = insertAll [] (obtained man k log)
  /-- It has a link for each chunk that it asked for. -/
  asked : ∀ now r, .asked k now r ∈ log → links.has r.chunkIndex = true
  requested : ∀ r ∈ pending, Requested k log r

/-- Where a call stands that waits for an answer. -/
structure Waits (man : Manifest) (k : Nat) (log : List Event) (r : LinkRequest) (p : Progress) :
    Prop where
  got : p.links = insertAll [] (obtained man k log)
  /-- It has a link for each chunk that it asked for before. -/
  asked : ∀ now r', .asked k now r' ∈ log →
    r'.chunkIndex = r.chunkIndex ∨ p.links.has r'.chunkIndex = true
  requested : ∀ r' ∈ p.pending, Requested k log r'

/-- A resolver and the log of its use go together. -/
structure Coherent (man : Manifest) (buffer : Int) (u : Use) : Prop where
  memory : Remembers man buffer u.log u.memory
  waits : ∀ k r p, u.calls[k]? = some (.ask r p) → Waits man k u.log r p
  /-- Events are of calls that began. -/
  numbered : ∀ e ∈ u.log, e.call < u.calls.length
  right : AllRight man buffer u.log

section

variable {man : Manifest} {buffer : Int} {log es : List Event} {e : Event} {k : Nat}

theorem AllRight.concat (h : AllRight man buffer log) (he : Right man buffer log e) :
    AllRight man buffer (log ++ [e]) := by
  intro n e' hn
  by_cases hlt : n < log.length
  · rw [List.getElem?_append_left hlt] at hn
    rw [List.take_append_of_le_length (Nat.le_of_lt hlt)]
    exact h n e' hn
  · have hlast : n = log.length := by
      have hlt' := (List.getElem?_eq_some_iff.1 hn).1
      simp only [List.length_append, List.length_singleton] at hlt'
      omega
    subst hlast
    obtain rfl : e = e' := by simpa using hn
    simpa using he

/-- The events of other calls change nothing for a call that waits. -/
theorem Waits.append {r : LinkRequest} {p : Progress} (h : Waits man k log r p)
    (hothers : ∀ e ∈ es, e.call ≠ k) : Waits man k (log ++ es) r p where
  got := by
    rw [obtained_append, obtained_of_ne hothers, List.append_nil]
    exact h.got
  asked := by
    intro now r' hr'
    rcases List.mem_append.1 hr' with hbefore | hnew
    · exact h.asked now r' hbefore
    · exact absurd rfl (hothers _ hnew)
  requested := fun r' hr' => (h.requested r' hr').append es

/-! ## One look at the requests -/

namespace Looks

variable {m : Memory} {now : Timestamp} {r : LinkRequest} {rest pending : List LinkRequest}
  {links : LinkTable}

theorem tail (h : Looks man k log (r :: rest) links) : Looks man k log rest links :=
  ⟨h.got, h.asked, fun r' hr' => h.requested r' (List.mem_cons_of_mem _ hr')⟩

theorem lastFor_eq_none (h : Looks man k log pending links) {index : Int}
    (hlacks : ¬ links.has index = true) : lastFor (obtained man k log) index = none := by
  rw [h.got, LinkTable.has, LinkTable.find?_insertAll_nil] at hlacks
  simpa using hlacks

/-- A chunk gets a link from memory. -/
theorem serve (h : Looks man k log (r :: rest) links) (l : Link) :
    Looks man k (log ++ [.served k now r.chunkIndex l]) rest (links.insert r.chunkIndex l) where
  got := by
    have hself : obtained man k [.served k now r.chunkIndex l] = [(r.chunkIndex, l)] := by
      simp [obtained, Event.obtains]
    rw [obtained_append, hself, LinkTable.insertAll_append, ← h.got]
    rfl
  asked := by
    intro now' r' hr'
    have hbefore : .asked k now' r' ∈ log := by simpa using hr'
    exact Listing.has_insert.2 (Or.inr (h.asked now' r' hbefore))
  requested := fun r' hr' => (h.requested r' (List.mem_cons_of_mem _ hr')).append _

theorem right_served (h : Looks man k log (r :: rest) links) (hm : Remembers man buffer log m)
    (hlacks : ¬ links.has r.chunkIndex = true) {l : Link} (hl : m.fresh now r.chunkIndex = some l) :
    Right man buffer log (.served k now r.chunkIndex l) := by
  rw [hm.fresh] at hl
  obtain ⟨hknown, hfresh⟩ := Option.filter_eq_some_iff.1 hl
  exact ⟨hknown, hfresh, h.lastFor_eq_none hlacks⟩

theorem right_asked (h : Looks man k log (r :: rest) links) (hm : Remembers man buffer log m)
    (hlacks : ¬ links.has r.chunkIndex = true) (hnone : m.fresh now r.chunkIndex = none) :
    Right man buffer log (.asked k now r) := by
  refine ⟨h.requested r List.mem_cons_self, ?_, h.lastFor_eq_none hlacks, ?_⟩
  · intro now' r' hr' hsame
    exact hlacks (hsame ▸ h.asked now' r' hr')
  · intro l hl
    rw [hm.fresh, hl] at hnone
    simpa using Option.filter_eq_none_iff.1 hnone l rfl

theorem waits (h : Looks man k log (r :: rest) links) :
    Waits man k (log ++ [.asked k now r]) r ⟨rest, links⟩ where
  got := by
    have hself : obtained man k [.asked k now r] = [] := rfl
    rw [obtained_append, hself, List.append_nil]
    exact h.got
  asked := by
    intro now' r' hr'
    rcases List.mem_append.1 hr' with hbefore | hnew
    · exact Or.inr (h.asked now' r' hbefore)
    · simp only [List.mem_singleton, Event.asked.injEq] at hnew
      exact Or.inl (by rw [hnew.2.2])
  requested := fun r' hr' => (h.requested r' (List.mem_cons_of_mem _ hr')).append _

variable (now) in
/-- **A look at the requests does what is right, and leaves the call waiting or ends it.** -/
theorem trail (h : Looks man k log pending links) (hm : Remembers man buffer log m)
    (hright : AllRight man buffer log) :
    let s := Resolver.serve m now pending links
    let log' := log ++ trail k now (served m now pending links) s
    AllRight man buffer log' ∧ ∀ r p, s = .ask r p → Waits man k log' r p := by
  -- on the requests; each link that is served is one more event of the log
  induction pending generalizing log links with
  | nil =>
    refine ⟨hright.concat h.got, ?_⟩
    intro r p hask
    cases hask
  | cons r rest ih =>
    by_cases hhas : links.has r.chunkIndex = true
    · rw [Resolver.serve, served, if_pos hhas, if_pos hhas]
      exact ih h.tail hm hright
    · rw [Resolver.serve, served, if_neg hhas, if_neg hhas]
      cases hfresh : m.fresh now r.chunkIndex with
      | some l =>
        have hnext := ih (h.serve l) (hm.of_stored_nil rfl)
          (hright.concat (h.right_served hm hhas hfresh))
        simpa [Resolver.trail] using hnext
      | none =>
        refine ⟨hright.concat (h.right_asked hm hhas hfresh), ?_⟩
        intro r' p hask
        cases hask
        exact h.waits

end Looks

/-- With the links of an answer, a call has one for each chunk that it asked for. -/
theorem Waits.looks {r : LinkRequest} {p : Progress}
    {answer : Except FetchError (List ResultLink)} (h : Waits man k log r p)
    (hhas : (p.links.insertAll (brought (startsAt man) answer)).has r.chunkIndex = true) :
    Looks man k (log ++ [.heard k answer]) p.pending
      (p.links.insertAll (brought (startsAt man) answer)) where
  got := by
    have hself : obtained man k [.heard k answer] = brought (startsAt man) answer := by
      simp [obtained, Event.obtains]
    rw [obtained_append, hself, LinkTable.insertAll_append, ← h.got]
  asked := by
    intro now r' hr'
    have hbefore : .asked k now r' ∈ log := by simpa using hr'
    rcases h.asked now r' hbefore with hsame | hhad
    · rw [hsame]
      exact hhas
    · exact (LinkTable.has_insertAll _ _ _).2 (Or.inr hhad)
  requested := fun r' hr' => (h.requested r' hr').append _

/-- **An answer leaves in memory what it brings, and the call waits for another or ends.** -/
theorem Waits.hear {r : LinkRequest} {p : Progress} {m : Memory} (now : Timestamp)
    (h : Waits man k log r p) (hm : Remembers man buffer log m) (hright : AllRight man buffer log)
    (answer : Except FetchError (List ResultLink)) :
    let after := accept m now r p answer
    let log' := log ++ .heard k answer :: trail k now (servedAfter m now r p answer) after.2
    Remembers man buffer log' after.1 ∧ AllRight man buffer log' ∧
      ∀ r' p', after.2 = .ask r' p' → Waits man k log' r' p' := by
  have hheard : Remembers man buffer (log ++ [.heard k answer])
      (m.remember (brought (startsAt man) answer)) := by
    have happend := hm.append [.heard k answer]
    rwa [stored_heard] at happend
  have hrightHeard : AllRight man buffer (log ++ [.heard k answer]) := hright.concat trivial
  have hcases := accept_cases m now r p answer
  rw [hm.chunkAt] at hcases
  dsimp only at hcases ⊢
  rw [← List.singleton_append, ← List.append_assoc]
  rcases hcases with ⟨e, haccept, hserved⟩ | ⟨hhas, haccept, hserved⟩
  · rw [haccept, hserved]
    refine ⟨hheard.of_stored_nil (stored_trail _ _ _ _ _), hrightHeard.concat trivial, ?_⟩
    intro r' p' hask
    cases hask
  · rw [haccept, hserved]
    obtain ⟨hright', hwaits⟩ := (h.looks hhas).trail now hheard hrightHeard
    exact ⟨hheard.of_stored_nil (stored_trail _ _ _ _ _), hright', hwaits⟩

/-! ## Any use -/

namespace Coherent

variable {u u' : Use} {now : Timestamp}

theorem init (man : Manifest) (buffer : Int) : Coherent man buffer ⟨.ofManifest man buffer, [], []⟩ where
  memory := rfl
  waits := by simp
  numbered := by simp
  right := by simp [AllRight]

/-- Something happens in one call. -/
theorem grow (h : Coherent man buffer u) (hlog : u'.log = u.log ++ es)
    (hmemory : Remembers man buffer u'.log u'.memory) (hright : AllRight man buffer u'.log)
    (hes : ∀ e ∈ es, e.call = k) (hk : k < u'.calls.length)
    (hlength : u.calls.length ≤ u'.calls.length)
    (hothers : ∀ j s, j ≠ k → u'.calls[j]? = some s → u.calls[j]? = some s)
    (hwaits : ∀ r p, u'.calls[k]? = some (.ask r p) → Waits man k u'.log r p) :
    Coherent man buffer u' where
  memory := hmemory
  right := hright
  waits := by
    intro j r p hj
    by_cases hjk : j = k
    · subst hjk
      exact hwaits r p hj
    · rw [hlog]
      refine (h.waits j r p (hothers j _ hjk hj)).append ?_
      intro e he
      rw [hes e he]
      exact fun hkj => hjk hkj.symm
  numbered := by
    rw [hlog]
    intro e he
    rcases List.mem_append.1 he with hbefore | hnew
    · exact Nat.lt_of_lt_of_le (h.numbered e hbefore) hlength
    · rw [hes e hnew]
      exact hk

/-- A call that begins has nothing, and has asked for nothing. -/
theorem looks_start (h : Coherent man buffer u) (requests : List LinkRequest) :
    Looks man u.calls.length (u.log ++ [.began u.calls.length requests])
      (start requests).pending [] where
  got := by
    have hnone : obtained man u.calls.length u.log = [] :=
      obtained_of_ne fun e he => Nat.ne_of_lt (h.numbered e he)
    have hself : obtained man u.calls.length [.began u.calls.length requests] = [] := rfl
    rw [obtained_append, hnone, hself]
    rfl
  asked := by
    intro now r hr
    have hbefore : .asked u.calls.length now r ∈ u.log := by simpa using hr
    exact absurd rfl (Nat.ne_of_lt (h.numbered _ hbefore))
  requested := by
    intro r hr
    exact ⟨requests, by simp, List.mem_mergeSort.1 hr⟩

theorem begin (h : Coherent man buffer u) (now : Timestamp) (requests : List LinkRequest) :
    Coherent man buffer (u.act (.begin now requests)) := by
  have hbegan : Remembers man buffer (u.log ++ [.began u.calls.length requests]) u.memory :=
    h.memory.of_stored_nil rfl
  obtain ⟨hright, hwaits⟩ :=
    (h.looks_start requests).trail now hbegan (h.right.concat trivial)
  rw [List.append_assoc, List.singleton_append] at hright hwaits
  refine h.grow (k := u.calls.length) rfl (h.memory.of_stored_nil ?_) hright ?_ (by simp [Use.act])
    (by simp [Use.act]) ?_ ?_
  · exact stored_trail _ _ _ _ _
  · intro e he
    rcases List.mem_cons.1 he with rfl | htrail
    · rfl
    · exact (of_mem_trail man htrail).1
  · intro j s hj hs
    have hlt := (List.getElem?_eq_some_iff.1 hs).1
    simp only [Use.act, List.length_append, List.length_singleton] at hlt
    rwa [Use.act, List.getElem?_append_left (by omega)] at hs
  · intro r p hask
    have hstep : next u.memory now (start requests) = .ask r p := by
      simpa [Use.act] using hask
    exact hwaits r p hstep

theorem hear (h : Coherent man buffer u) (k : Nat) (now : Timestamp)
    (answer : Except FetchError (List ResultLink)) :
    Coherent man buffer (u.act (.hear k now answer)) := by
  by_cases hk : ∃ r p, u.calls[k]? = some (.ask r p)
  · obtain ⟨r, p, hk⟩ := hk
    have hlt := (List.getElem?_eq_some_iff.1 hk).1
    have hact : u.act (.hear k now answer) =
        { memory := (accept u.memory now r p answer).1
          calls := u.calls.set k (accept u.memory now r p answer).2
          log := u.log ++ .heard k answer :: trail k now
            (servedAfter u.memory now r p answer) (accept u.memory now r p answer).2 } := by
      simp only [Use.act, hk]
    obtain ⟨hmemory, hright, hwaits⟩ :=
      (h.waits k r p hk).hear now h.memory h.right answer
    rw [hact]
    refine h.grow (k := k) rfl hmemory hright ?_ (by simpa using hlt) (by simp) ?_ ?_
    · intro e he
      rcases List.mem_cons.1 he with rfl | htrail
      · rfl
      · exact (of_mem_trail man htrail).1
    · intro j s hj hs
      rwa [List.getElem?_set_ne (fun hkj => hj hkj.symm)] at hs
    · intro r' p' hask
      rw [List.getElem?_set_self hlt] at hask
      exact hwaits r' p' (Option.some.inj hask)
  · have hact : u.act (.hear k now answer) = u := by
      unfold Use.act
      dsimp only
      split
      · next r p hask => exact absurd ⟨r, p, hask⟩ hk
      · rfl
    rw [hact]
    exact h

theorem act (h : Coherent man buffer u) (a : Action) : Coherent man buffer (u.act a) := by
  cases a with
  | begin now requests => exact h.begin now requests
  | hear k now answer => exact h.hear k now answer

end Coherent

/-- **However a resolver is used, its memory and its calls are as the log says, and each event is
right.** -/
theorem coherent_run (man : Manifest) (buffer : Int) (actions : List Action) :
    Coherent man buffer (.run man buffer actions) := by
  induction actions using List.reverseRecOn with
  | nil => exact .init man buffer
  | append_singleton actions a ih =>
    rw [Use.run, List.foldl_append]
    exact ih.act a

/-! ## Fresh links and stale ones -/

/-- An event at a place is among the first events of a log, if there are more of them. -/
theorem mem_take_of_getElem? {n n' : Nat} (h : log[n]? = some e) (hlt : n < n') :
    e ∈ log.take n' := by
  refine List.mem_of_getElem? (i := n) ?_
  rw [List.getElem?_take_of_lt hlt]
  exact h

namespace AllRight

/-- A call asks once for a chunk. -/
theorem asked_once (h : AllRight man buffer log) {n n' : Nat} {now now' : Timestamp}
    {r r' : LinkRequest} (hn : log[n]? = some (.asked k now r))
    (hn' : log[n']? = some (.asked k now' r')) (hsame : r.chunkIndex = r'.chunkIndex) : n = n' := by
  rcases Nat.lt_trichotomy n n' with hlt | heq | hlt
  · obtain ⟨-, hother, -⟩ := h n' _ hn'
    exact absurd hsame (hother now r (mem_take_of_getElem? hn hlt))
  · exact heq
  · obtain ⟨-, hother, -⟩ := h n _ hn
    exact absurd hsame.symm (hother now' r' (mem_take_of_getElem? hn' hlt))

/-- A link that a call returns came with an answer for it, or was fresh when it was served. -/
theorem returned (h : AllRight man buffer log) {n : Nat} {t : LinkTable}
    (hn : log[n]? = some (.returned k (.ok t))) {index : Int} {l : Link} (hl : (index, l) ∈ t) :
    (∃ files, .heard k (.ok files) ∈ log.take n ∧ (index, l) ∈ kept (startsAt man) files) ∨
      ∃ now, .served k now index l ∈ log.take n ∧ l.isFresh now buffer = true := by
  have ht : t = insertAll [] (obtained man k (log.take n)) := h n _ hn
  rw [ht, LinkTable.mem_insertAll_nil] at hl
  rcases mem_obtained (LinkTable.mem_of_lastFor hl) with hheard | ⟨now, hserved⟩
  · exact Or.inl hheard
  · obtain ⟨n', hn'⟩ := List.getElem?_of_mem (List.mem_of_mem_take hserved)
    obtain ⟨-, hfresh, -⟩ := h n' _ hn'
    exact Or.inr ⟨now, hserved, hfresh⟩

end AllRight

/-- Where memory has a fresh link for each request, no query is made. -/
theorem serve_of_fresh {m : Memory} {now : Timestamp} {pending : List LinkRequest}
    {links : LinkTable}
    (hlinks : ∀ index, links.has index = true → links.find? index = m.fresh now index)
    (hfresh : ∀ r ∈ pending, (m.fresh now r.chunkIndex).isSome = true) :
    ∃ t, serve m now pending links = .answer (.ok t) ∧
      (∀ index, links.has index = true → t.find? index = m.fresh now index) ∧
      ∀ r ∈ pending, t.find? r.chunkIndex = m.fresh now r.chunkIndex := by
  induction pending generalizing links with
  | nil => exact ⟨links, rfl, hlinks, by simp⟩
  | cons r rest ih =>
    have hrest : ∀ r ∈ rest, (m.fresh now r.chunkIndex).isSome = true :=
      fun r' hr' => hfresh r' (List.mem_cons_of_mem _ hr')
    by_cases hhas : links.has r.chunkIndex = true
    · rw [serve, if_pos hhas]
      obtain ⟨t, hserve, hkept, hothers⟩ := ih hlinks hrest
      exact ⟨t, hserve, hkept, List.forall_mem_cons.2 ⟨hkept _ hhas, hothers⟩⟩
    · obtain ⟨l, hl⟩ := Option.isSome_iff_exists.1 (hfresh r List.mem_cons_self)
      have hinsert : ∀ index, (links.insert r.chunkIndex l).has index = true →
          (links.insert r.chunkIndex l).find? index = m.fresh now index := by
        intro index hindex
        rw [LinkTable.find?_insert]
        by_cases heq : index = r.chunkIndex
        · rw [if_pos heq, heq, hl]
        · rw [if_neg heq]
          exact hlinks index ((Listing.has_insert.1 hindex).resolve_left heq)
      obtain ⟨t, hserve, hkept, hothers⟩ := ih hinsert hrest
      rw [serve, if_neg hhas, hl]
      refine ⟨t, hserve, fun index h => hkept index (Listing.has_insert.2 (Or.inr h)), ?_⟩
      exact List.forall_mem_cons.2 ⟨hkept _ (Listing.has_insert.2 (Or.inl rfl)), hothers⟩

namespace Coherent

variable {u : Use}

/-- A call for chunks whose last known links are fresh is answered with these, without a query. -/
theorem next_of_fresh (h : Coherent man buffer u) {now : Timestamp} {requests : List LinkRequest}
    (hfresh : ∀ r ∈ requests,
      ∃ l, known man u.log r.chunkIndex = some l ∧ l.isFresh now buffer = true) :
    ∃ t, next u.memory now (start requests) = .answer (.ok t) ∧
      ∀ r ∈ requests, t.find? r.chunkIndex = known man u.log r.chunkIndex := by
  have hmemory : ∀ r ∈ requests,
      u.memory.fresh now r.chunkIndex = known man u.log r.chunkIndex := by
    intro r hr
    obtain ⟨l, hl, hlfresh⟩ := hfresh r hr
    rw [h.memory.fresh, hl]
    exact Option.filter_eq_some_iff.2 ⟨rfl, hlfresh⟩
  have hpending : ∀ r ∈ (start requests).pending,
      (u.memory.fresh now r.chunkIndex).isSome = true := by
    intro r hr
    have hr' := List.mem_mergeSort.1 hr
    obtain ⟨l, hl, -⟩ := hfresh r hr'
    rw [hmemory r hr', hl]
    rfl
  have hempty : ∀ index, LinkTable.has [] index = true →
      LinkTable.find? [] index = u.memory.fresh now index := by
    simp [LinkTable.has, LinkTable.find?]
  obtain ⟨t, hserve, -, hfound⟩ := serve_of_fresh hempty hpending
  refine ⟨t, hserve, ?_⟩
  intro r hr
  rw [hfound r (List.mem_mergeSort.2 hr), hmemory r hr]

end Coherent

/-- **A query is for a requested chunk that the call has no link for and whose last known link, from the
manifest or from any answer before, is missing or stale, and there is one such query for a chunk and call
at most. A returned link came with an answer in the call, or it was fresh when it was served. Links
that an answer brought are known even if the call failed with it, and as long as the last
known links are fresh, a call for them makes no query.** Times need not increase. -/
theorem cached_links_are_fresh (man : Manifest) (buffer : Int) (actions : List Action) :
    let u := Use.run man buffer actions
    (∀ n k now r, u.log[n]? = some (.asked k now r) → Requested k (u.log.take n) r ∧
      lastFor (obtained man k (u.log.take n)) r.chunkIndex = none ∧
      ∀ l, known man (u.log.take n) r.chunkIndex = some l → l.isFresh now buffer = false) ∧
    (∀ (n n' : Nat) k now now' r r', u.log[n]? = some (.asked k now r) →
      u.log[n']? = some (.asked k now' r') → r.chunkIndex = r'.chunkIndex → n = n') ∧
    (∀ n k t, u.log[n]? = some (.returned k (.ok t)) → ∀ index l, (index, l) ∈ t →
      (∃ files, .heard k (.ok files) ∈ u.log.take n ∧ (index, l) ∈ kept (startsAt man) files) ∨
        ∃ now, .served k now index l ∈ u.log.take n ∧ l.isFresh now buffer = true) ∧
    (∀ n k files, u.log[n]? = some (.heard k (.ok files)) → ∀ index l,
      lastFor (kept (startsAt man) files) index = some l →
      lastFor (stored man (u.log.drop (n + 1))) index = none → known man u.log index = some l) ∧
    ∀ now requests, (∀ r ∈ requests,
        ∃ l, known man u.log r.chunkIndex = some l ∧ l.isFresh now buffer = true) →
      ∃ t, next u.memory now (start requests) = .answer (.ok t) ∧
        ∀ r ∈ requests, t.find? r.chunkIndex = known man u.log r.chunkIndex := by
  intro u
  have h : Coherent man buffer u := coherent_run man buffer actions
  refine ⟨?_, ?_, ?_, ?_, ?_⟩
  · intro n k now r hn
    obtain ⟨hrequested, -, hlacks, hstale⟩ := h.right n _ hn
    exact ⟨hrequested, hlacks, hstale⟩
  · intro n n' k now now' r r' hn hn' hsame
    exact h.right.asked_once hn hn' hsame
  · intro n k t hn index l hl
    exact h.right.returned hn hl
  · intro n k files hn index l hl hlater
    exact known_of_heard hn hl hlater
  · intro now requests hfresh
    exact h.next_of_fresh hfresh

end

end ResultChunks.Rpc.Resolver
