import Mathlib.Data.List.TakeWhile
import ResultChunks.Proofs.Resolver.Table
import ResultChunks.Resolver.Statement

/-!
# Which chunks are asked for

The answer to one query may have links for other requests too, in place of earlier ones, or leave out
the chunk that was asked for. So which queries a call makes depends on all answers before. `Stands`
says where a call stands between two queries, after exchanges that all served: it holds at the start,
one more exchange that serves keeps it, and whatever a call comes to from there, `Ends` says.
-/

namespace ResultChunks.Statement.Resolver

open LinkTable (insertAll lastFor)

/-! ## The indices that a call looks at -/

theorem mem_eraseReps_loop (xs : List Int) (a b : Int) (acc : List Int) :
    b ∈ List.eraseRepsBy.loop (· == ·) a xs acc ↔ b ∈ acc ∨ b = a ∨ b ∈ xs := by
  induction xs generalizing a acc with
  | nil => simp [List.eraseRepsBy.loop, or_comm]
  | cons x xs ih =>
      by_cases hx : a = x
      · subst hx
        simp [List.eraseRepsBy.loop, ih]
      · have hne : (a == x) = false := by simpa using hx
        simp only [List.eraseRepsBy.loop, hne, ih, List.mem_cons]
        tauto

theorem pairwise_eraseReps_loop {xs acc : List Int} {a : Int} (hacc : acc.Pairwise (· > ·))
    (hbelow : ∀ b ∈ acc, b < a) (hsorted : (a :: xs).Pairwise (· ≤ ·)) :
    (List.eraseRepsBy.loop (· == ·) a xs acc).Pairwise (· < ·) := by
  -- on what is left; the indices that were passed stand in the accumulator, the last one in front
  induction xs generalizing a acc with
  | nil =>
      rw [List.eraseRepsBy.loop, List.pairwise_reverse]
      exact List.pairwise_cons.2 ⟨hbelow, hacc⟩
  | cons x xs ih =>
      have hax : a ≤ x := List.rel_of_pairwise_cons hsorted List.mem_cons_self
      have hrest : (x :: xs).Pairwise (· ≤ ·) := (List.pairwise_cons.1 hsorted).2
      by_cases hx : a = x
      · subst hx
        simp only [List.eraseRepsBy.loop, beq_self_eq_true]
        exact ih hacc hbelow hrest
      · have hne : (a == x) = false := by simpa using hx
        simp only [List.eraseRepsBy.loop, hne]
        refine ih (List.pairwise_cons.2 ⟨hbelow, hacc⟩) ?_ hrest
        intro b hb
        rcases List.mem_cons.1 hb with rfl | hb
        · omega
        · have hba := hbelow b hb
          omega

/-- The indices that are looked at are the ones that were requested. -/
theorem mem_distinct {indices : List Int} {i : Int} : i ∈ distinct indices ↔ i ∈ indices := by
  have hsort : i ∈ indices.mergeSort (fun a b => a ≤ b) ↔ i ∈ indices := List.mem_mergeSort
  rw [← hsort, distinct]
  cases indices.mergeSort fun a b => a ≤ b with
  | nil => simp [List.eraseReps, List.eraseRepsBy]
  | cons a xs => simp [List.eraseReps, List.eraseRepsBy, mem_eraseReps_loop]

/-- They are looked at in increasing order, each once. -/
theorem pairwise_distinct (indices : List Int) : (distinct indices).Pairwise (· < ·) := by
  have hsorted : (indices.mergeSort fun a b => a ≤ b).Pairwise (· ≤ ·) := by
    have h : (indices.mergeSort fun a b => a ≤ b).Pairwise fun a b => decide (a ≤ b) = true :=
      List.pairwise_mergeSort (by simp; omega) (by simp; omega) indices
    simpa using h
  rw [distinct]
  cases h : indices.mergeSort fun a b => a ≤ b with
  | nil => simp [List.eraseReps, List.eraseRepsBy]
  | cons a xs =>
      rw [h] at hsorted
      exact pairwise_eraseReps_loop List.Pairwise.nil (by simp) hsorted

/-! ## Exchanges -/

/-- A query for the links from a chunk on, and the answer to it. -/
structure Exchange where
  index : Int
  answer : Except FetchError LinkPage

namespace Exchange

/-- The links that an exchange brought, each with the chunk it is for. -/
def brought (x : Exchange) : List (Int × Link) :=
  match x.answer with
  | .ok page => page.links.map fun l => (l.chunkIndex, l)
  | .error _ => []

/-- The query succeeded, and there is a link for the chunk that was asked for. -/
def Serves (x : Exchange) : Prop :=
  ∃ page, x.answer = .ok page ∧ ∃ l ∈ page.links, l.chunkIndex = x.index

/-- The query failed, or there is no link for the chunk that was asked for. -/
inductive FailsWith : Exchange → FetchError → Prop where
  | refused (index : Int) (e : FetchError) : FailsWith ⟨index, .error e⟩ e
  | omitted {index : Int} {page : LinkPage} (h : ∀ l ∈ page.links, l.chunkIndex ≠ index) :
      FailsWith ⟨index, .ok page⟩ (.invalidManifest (.noLinkReturned index))

theorem chunkIndex_of_brought {x : Exchange} {e : Int × Link} (h : e ∈ x.brought) :
    e.2.chunkIndex = e.1 := by
  unfold brought at h
  split at h
  · obtain ⟨l, -, rfl⟩ := List.mem_map.1 h
    rfl
  · simp at h

theorem serves_iff {x : Exchange} : x.Serves ↔ ∃ e ∈ x.brought, e.1 = x.index := by
  obtain ⟨index, e | page⟩ := x
  · simp [Serves, brought]
  · simp [Serves, brought]

theorem serves_or_fails (x : Exchange) : x.Serves ∨ ∃ e, x.FailsWith e := by
  obtain ⟨index, e | page⟩ := x
  · exact Or.inr ⟨e, .refused index e⟩
  · by_cases h : ∃ l ∈ page.links, l.chunkIndex = index
    · exact Or.inl ⟨page, rfl, h⟩
    · exact Or.inr ⟨_, .omitted (by simpa using h)⟩

theorem FailsWith.not_serves {x : Exchange} {e : FetchError} (h : x.FailsWith e) : ¬ x.Serves := by
  rintro ⟨page, hpage, l, hl, hindex⟩
  cases h with
  | refused => cases hpage
  | omitted homits =>
    obtain rfl := Except.ok.inj hpage
    exact homits l hl hindex

end Exchange

theorem addLinks_eq (t : LinkTable) (links : List Link) :
    addLinks t links = t.insertAll (links.map fun l => (l.chunkIndex, l)) := by
  rw [addLinks, insertAll, List.foldl_map]

/-- An exchange that serves adds what it brought, and the call goes on. -/
theorem accept_of_serves {x : Exchange} (h : x.Serves) (p : Progress) :
    accept x.index p x.answer = next ⟨p.pending, p.links.insertAll x.brought⟩ := by
  have hhas : (p.links.insertAll x.brought).has x.index = true :=
    (LinkTable.has_insertAll _ _ _).2 (Or.inl (Exchange.serves_iff.1 h))
  obtain ⟨page, hpage, -⟩ := h
  simp only [Exchange.brought, hpage] at hhas ⊢
  rw [accept, addLinks_eq]
  exact if_pos hhas

/-- An exchange that fails ends the call, if there was no link for its chunk before. -/
theorem accept_of_fails {x : Exchange} {e : FetchError} (h : x.FailsWith e) {p : Progress}
    (hlacks : ¬ p.links.has x.index = true) : accept x.index p x.answer = .answer (.error e) := by
  cases h with
  | refused => rfl
  | @omitted index page homits =>
    have hhas : ¬ (addLinks p.links page.links).has index = true := by
      rw [addLinks_eq, LinkTable.has_insertAll]
      rintro (⟨e, he, hindex⟩ | hbefore)
      · obtain ⟨l, hl, rfl⟩ := List.mem_map.1 he
        exact homits l hl hindex
      · exact hlacks hbefore
    exact if_neg hhas

/-! ## A whole call -/

/-- What a server says to a query, after the exchanges of the call before it. -/
abbrev Server := List Exchange → Int → Except FetchError LinkPage

/-- The number of indices that a step has still to look at, with the one it asks for. -/
def Step.rank : Step → Nat
  | .ask _ p => p.pending.length + 1
  | .answer _ => 0

theorem rank_next_le (p : Progress) : (next p).rank ≤ p.pending.length := by
  have hlength := (List.dropWhile_sublist p.links.has (l := p.pending)).length_le
  rw [next]
  split
  · exact Nat.zero_le _
  · next i rest heq =>
    rw [heq, List.length_cons] at hlength
    exact hlength

theorem rank_accept_le (index : Int) (p : Progress) (answer : Except FetchError LinkPage) :
    (accept index p answer).rank ≤ p.pending.length := by
  unfold accept
  split
  · exact Nat.zero_le _
  · dsimp only
    split
    · exact rank_next_le _
    · exact Nat.zero_le _

/-- Follow a call from a step to its end, with the exchanges so far. -/
def call (server : Server) (made : List Exchange) :
    Step → List Exchange × Except FetchError LinkTable
  | .answer result => (made, result)
  | .ask index p =>
    let x : Exchange := ⟨index, server made index⟩
    call server (made ++ [x]) (accept index p x.answer)
termination_by s => s.rank
decreasing_by exact Nat.lt_succ_of_le (rank_accept_le _ _ _)

/-- A call from its start: the exchanges it makes, and its answer. -/
def resolve (server : Server) (requests : List LinkRequest) :
    List Exchange × Except FetchError LinkTable :=
  call server [] (next (start requests))

/-- The links that exchanges brought, in the order they came. -/
def returned (made : List Exchange) : List (Int × Link) := made.flatMap Exchange.brought

/-- An index is asked for exactly if no exchange before its turn failed or brought a link for it. -/
def Justified (made : List Exchange) (i : Int) : Prop :=
  (∃ x ∈ made, x.index = i) ↔
    ∀ x ∈ made, x.index < i → x.Serves ∧ ∀ e ∈ x.brought, e.1 ≠ i

/-- Each answer is what the server says after the exchanges before. -/
def Heard (server : Server) (made : List Exchange) : Prop :=
  ∀ n x, made[n]? = some x → x.answer = server (made.take n) x.index

/-- Where a call stands between two queries, after exchanges that all served. -/
structure Stands (server : Server) (indices : List Int) (made : List Exchange) (p : Progress) :
    Prop where
  heard : Heard server made
  serve : ∀ x ∈ made, x.Serves
  /-- The links so far are the ones that were returned. -/
  links : p.links = insertAll [] (returned made)
  /-- What was asked for and what is still to look at increases. -/
  increase : (made.map Exchange.index ++ p.pending).Pairwise (· < ·)
  requested : ∀ i ∈ made.map Exchange.index ++ p.pending, i ∈ indices
  decided : ∀ i ∈ indices, i ∈ p.pending ∨ (∀ j ∈ p.pending, i < j) ∧ Justified made i

/-- What a call comes to. -/
structure Ends (server : Server) (indices : List Int) (made : List Exchange)
    (result : Except FetchError LinkTable) : Prop where
  heard : Heard server made
  increase : (made.map Exchange.index).Pairwise (· < ·)
  requested : ∀ x ∈ made, x.index ∈ indices
  decided : ∀ i ∈ indices, Justified made i
  /-- All exchanges served, or the last one only failed. -/
  verdict : (result = .ok (insertAll [] (returned made)) ∧ ∀ x ∈ made, x.Serves) ∨
    ∃ before last e, made = before ++ [last] ∧ (∀ x ∈ before, x.Serves) ∧ last.FailsWith e ∧
      result = .error e

section

variable {server : Server} {indices : List Int} {made : List Exchange} {x : Exchange} {i : Int}

theorem Heard.concat (h : Heard server made) (hx : x.answer = server made x.index) :
    Heard server (made ++ [x]) := by
  intro n y hy
  by_cases hn : n < made.length
  · rw [List.getElem?_append_left hn] at hy
    rw [List.take_append_of_le_length (Nat.le_of_lt hn)]
    exact h n y hy
  · have hlast : n = made.length := by
      have hlt := (List.getElem?_eq_some_iff.1 hy).1
      simp only [List.length_append, List.length_singleton] at hlt
      omega
    subst hlast
    obtain rfl : x = y := by simpa using hy
    simpa using hx

/-- A later exchange has no say in whether an index is asked for. -/
theorem Justified.concat (h : Justified made i) (hlater : i < x.index) :
    Justified (made ++ [x]) i := by
  have hasked : (∃ y ∈ made ++ [x], y.index = i) ↔ ∃ y ∈ made, y.index = i := by
    have hne : x.index ≠ i := by omega
    simp [or_and_right, exists_or, hne]
  have hbefore : (∀ y ∈ made ++ [x], y.index < i → y.Serves ∧ ∀ e ∈ y.brought, e.1 ≠ i) ↔
      ∀ y ∈ made, y.index < i → y.Serves ∧ ∀ e ∈ y.brought, e.1 ≠ i := by
    have hnot : ¬ x.index < i := by omega
    simp [or_imp, forall_and, hnot]
  rw [Justified, hasked, hbefore]
  exact h

/-- Not to ask is justified by an exchange that failed or brought a link. -/
theorem justified_of_not_asked (hbefore : ∀ x ∈ made, x.index < i) (hx : x ∈ made)
    (hnot : ¬ (x.Serves ∧ ∀ e ∈ x.brought, e.1 ≠ i)) : Justified made i := by
  constructor
  · rintro ⟨y, hy, rfl⟩
    have hlt := hbefore y hy
    omega
  · intro hall
    exact absurd (hall x hx (hbefore x hx)) hnot

/-- To ask is justified where all exchanges before served, and none brought a link. -/
theorem justified_of_asked (hserve : ∀ x ∈ made, x.Serves)
    (hlacks : ∀ e ∈ returned made, e.1 ≠ x.index) : Justified (made ++ [x]) x.index := by
  constructor
  · intro _ y hy hlt
    rcases List.mem_append.1 hy with hy | hy
    · exact ⟨hserve y hy, fun e he => hlacks e (List.mem_flatMap.2 ⟨y, hy, he⟩)⟩
    · obtain rfl := List.mem_singleton.1 hy
      omega
  · intro _
    exact ⟨x, by simp, rfl⟩

theorem returned_concat (made : List Exchange) (x : Exchange) :
    returned (made ++ [x]) = returned made ++ x.brought := by
  simp [returned]

namespace Stands

theorem start (server : Server) (requests : List LinkRequest) :
    Stands server (requests.map LinkRequest.chunkIndex) [] (start requests) where
  heard := by simp [Heard]
  serve := by simp
  links := rfl
  increase := pairwise_distinct _
  requested := fun _ hi => mem_distinct.1 hi
  decided := fun _ hi => Or.inl (mem_distinct.2 hi)

/-- There is a link for the indices that exchanges brought one for. -/
theorem has_iff {p : Progress} (h : Stands server indices made p) :
    p.links.has i = true ↔ ∃ e ∈ returned made, e.1 = i := by
  rw [h.links, LinkTable.has_insertAll]
  simp [LinkTable.has, LinkTable.find?]

/-- What was asked for comes before what is still to look at. -/
theorem below {p : Progress} (h : Stands server indices made p) (hi : i ∈ p.pending) :
    ∀ x ∈ made, x.index < i := by
  intro x hx
  exact (List.pairwise_append.1 h.increase).2.2 _ (List.mem_map_of_mem hx) _ hi

/-- An index that there is a link for is justly passed over. -/
theorem justified_of_has {p : Progress} (h : Stands server indices made p) (hi : i ∈ p.pending)
    (hhas : p.links.has i = true) : Justified made i := by
  obtain ⟨e, he, hfor⟩ := h.has_iff.1 hhas
  obtain ⟨x, hx, hbrought⟩ := List.mem_flatMap.1 he
  refine justified_of_not_asked (h.below hi) hx ?_
  intro hnone
  exact hnone.2 e hbrought hfor

variable {t : LinkTable} {passed rest : List Int}

theorem skip (h : Stands server indices made ⟨passed ++ rest, t⟩)
    (hhas : ∀ j ∈ passed, t.has j = true) : Stands server indices made ⟨rest, t⟩ where
  heard := h.heard
  serve := h.serve
  links := h.links
  increase := h.increase.sublist (by simp)
  requested := by
    intro j hj
    refine h.requested j ?_
    simp only [List.mem_append] at hj ⊢
    tauto
  decided := by
    have hsorted : (passed ++ rest).Pairwise (· < ·) := (List.pairwise_append.1 h.increase).2.1
    intro j hj
    rcases h.decided j hj with hpending | ⟨hlt, hdecided⟩
    · rcases List.mem_append.1 hpending with hpassed | hrest
      · have hlt := (List.pairwise_append.1 hsorted).2.2 j hpassed
        exact Or.inr ⟨hlt, h.justified_of_has hpending (hhas j hpassed)⟩
      · exact Or.inl hrest
    · exact Or.inr ⟨fun k hk => hlt k (List.mem_append_right _ hk), hdecided⟩

/-- The first index without a link is justly asked for. -/
theorem justified (h : Stands server indices made ⟨x.index :: rest, t⟩)
    (hlacks : ¬ t.has x.index = true) : Justified (made ++ [x]) x.index := by
  refine justified_of_asked h.serve ?_
  intro e he hfor
  exact hlacks (h.has_iff.2 ⟨e, he, hfor⟩)

/-- What was decided stays so. -/
theorem decided_concat (h : Stands server indices made ⟨x.index :: rest, t⟩)
    (hlacks : ¬ t.has x.index = true) (hi : i ∈ indices) :
    i ∈ rest ∨ (∀ j ∈ rest, i < j) ∧ Justified (made ++ [x]) i := by
  have hsorted : (x.index :: rest).Pairwise (· < ·) := (List.pairwise_append.1 h.increase).2.1
  rcases h.decided i hi with hpending | ⟨hlt, hdecided⟩
  · rcases List.mem_cons.1 hpending with rfl | hrest
    · exact Or.inr ⟨(List.pairwise_cons.1 hsorted).1, h.justified hlacks⟩
    · exact Or.inl hrest
  · have hbelow : i < x.index := hlt _ List.mem_cons_self
    exact Or.inr ⟨fun j hj => hlt j (List.mem_cons_of_mem _ hj), hdecided.concat hbelow⟩

theorem indices_concat (made : List Exchange) (x : Exchange) (rest : List Int) :
    (made ++ [x]).map Exchange.index ++ rest = made.map Exchange.index ++ x.index :: rest := by
  simp

/-- **One more exchange that serves.** -/
theorem concat (h : Stands server indices made ⟨x.index :: rest, t⟩)
    (hlacks : ¬ t.has x.index = true) (hheard : x.answer = server made x.index) (hx : x.Serves) :
    Stands server indices (made ++ [x]) ⟨rest, t.insertAll x.brought⟩ where
  heard := h.heard.concat hheard
  serve := by
    intro y hy
    rcases List.mem_append.1 hy with hy | hy
    · exact h.serve y hy
    · rw [List.mem_singleton.1 hy]
      exact hx
  links := by
    have ht : t = insertAll [] (returned made) := h.links
    rw [returned_concat, LinkTable.insertAll_append, ← ht]
  increase := by
    rw [indices_concat]
    exact h.increase
  requested := by
    rw [indices_concat]
    exact h.requested
  decided := fun _ hi => h.decided_concat hlacks hi

/-- The end of a call that has nothing left to look at. -/
theorem ends (h : Stands server indices made ⟨[], t⟩) : Ends server indices made (.ok t) where
  heard := h.heard
  increase := by simpa using h.increase
  requested := fun x hx => h.requested _ (List.mem_append_left _ (List.mem_map_of_mem hx))
  decided := by
    intro i hi
    rcases h.decided i hi with hpending | ⟨-, hdecided⟩
    · simp at hpending
    · exact hdecided
  verdict := Or.inl ⟨congrArg Except.ok h.links, h.serve⟩

/-- The end of a call with an exchange that fails: what is left is not asked for. -/
theorem fails {e : FetchError} (h : Stands server indices made ⟨x.index :: rest, t⟩)
    (hlacks : ¬ t.has x.index = true) (hheard : x.answer = server made x.index)
    (hx : x.FailsWith e) : Ends server indices (made ++ [x]) (.error e) where
  heard := h.heard.concat hheard
  increase := by
    have hsorted := h.increase
    rw [← indices_concat] at hsorted
    exact (List.pairwise_append.1 hsorted).1
  requested := by
    intro y hy
    refine h.requested _ ?_
    rw [← indices_concat]
    exact List.mem_append_left _ (List.mem_map_of_mem hy)
  decided := by
    intro i hi
    rcases h.decided_concat hlacks hi with hrest | ⟨-, hdecided⟩
    · have hsorted := h.increase
      rw [← indices_concat] at hsorted
      have hbelow := (List.pairwise_append.1 hsorted).2.2
      refine justified_of_not_asked ?_ (x := x) (by simp) (fun hnot => hx.not_serves hnot.1)
      intro y hy
      exact hbelow _ (List.mem_map_of_mem hy) _ hrest
    · exact hdecided
  verdict := Or.inr ⟨made, x, e, rfl, h.serve, hx, rfl⟩

/-- **From wherever a call stands, this is what it comes to.** -/
theorem ends_call {p : Progress} (h : Stands server indices made p) :
    Ends server indices (call server made (next p)).1 (call server made (next p)).2 := by
  -- on the number of indices left; an exchange that serves leaves at least one less
  induction hn : p.pending.length using Nat.strongRecOn generalizing made p with
  | ind n ih =>
    obtain ⟨pending, t⟩ := p
    have hsplit : pending.takeWhile t.has ++ pending.dropWhile t.has = pending :=
      List.takeWhile_append_dropWhile
    have hpassed : ∀ j ∈ pending.takeWhile t.has, t.has j = true := fun j hj =>
      List.mem_takeWhile_imp hj
    cases hleft : pending.dropWhile t.has with
    | nil =>
      have hnext : next ⟨pending, t⟩ = .answer (.ok t) := by
        rw [next, hleft]
      rw [hleft] at hsplit
      rw [← hsplit] at h
      rw [hnext, call]
      exact (h.skip hpassed).ends
    | cons i rest =>
      have hnext : next ⟨pending, t⟩ = .ask i ⟨rest, t⟩ := by
        rw [next, hleft]
      have hlacks : ¬ t.has i = true := by
        have hhead := List.head_dropWhile_not t.has (l := pending) (by simp [hleft])
        simpa [hleft] using hhead
      have hfewer : rest.length < n := by
        have hlength := (List.dropWhile_sublist t.has (l := pending)).length_le
        rw [hleft, List.length_cons] at hlength
        subst hn
        exact hlength
      rw [hleft] at hsplit
      rw [← hsplit] at h
      have hat := h.skip hpassed
      let x : Exchange := ⟨i, server made i⟩
      have hcall : call server made (next ⟨pending, t⟩) =
          call server (made ++ [x]) (accept x.index ⟨rest, t⟩ x.answer) := by
        rw [hnext, call]
      rw [hcall]
      rcases x.serves_or_fails with hx | ⟨e, hx⟩
      · rw [accept_of_serves hx]
        exact ih _ hfewer (hat.concat (x := x) hlacks rfl hx) rfl
      · rw [accept_of_fails hx hlacks, call]
        exact hat.fails (x := x) hlacks rfl hx

end Stands

/-- Where all exchanges served, a link was returned for each index. -/
theorem Justified.returned (h : Justified made i) (hserve : ∀ x ∈ made, x.Serves) :
    ∃ e ∈ returned made, e.1 = i := by
  by_cases hasked : ∃ x ∈ made, x.index = i
  · obtain ⟨x, hx, rfl⟩ := hasked
    obtain ⟨e, he, hfor⟩ := Exchange.serves_iff.1 (hserve x hx)
    exact ⟨e, List.mem_flatMap.2 ⟨x, hx, he⟩, hfor⟩
  · have hnot := mt h.2 hasked
    push Not at hnot
    obtain ⟨x, hx, -, hbrings⟩ := hnot
    obtain ⟨e, he, hfor⟩ := hbrings (hserve x hx)
    exact ⟨e, List.mem_flatMap.2 ⟨x, hx, he⟩, hfor⟩

namespace Ends

variable {result : Except FetchError LinkTable}

/-- A call succeeds exactly if all exchanges served. -/
theorem ok_iff (h : Ends server indices made result) :
    (∃ t, result = .ok t) ↔ ∀ x ∈ made, x.Serves := by
  rcases h.verdict with ⟨rfl, hserve⟩ | ⟨before, last, e, rfl, -, hfails, rfl⟩
  · exact ⟨fun _ => hserve, fun _ => ⟨_, rfl⟩⟩
  · have hnot : ¬ ∀ x ∈ before ++ [last], x.Serves := fun hserve =>
      hfails.not_serves (hserve last (by simp))
    simpa using hnot

/-- It answers with the links that were returned. -/
theorem eq_of_ok {t : LinkTable} (h : Ends server indices made (.ok t)) :
    t = insertAll [] (returned made) := by
  rcases h.verdict with ⟨hok, -⟩ | ⟨-, -, e, -, -, -, herror⟩
  · exact Except.ok.inj hok
  · cases herror

/-- It fails as its last exchange does. -/
theorem last_of_error {e : FetchError} (h : Ends server indices made (.error e)) :
    ∃ before last, made = before ++ [last] ∧ (∀ x ∈ before, x.Serves) ∧ last.FailsWith e := by
  rcases h.verdict with ⟨hok, -⟩ | ⟨before, last, e', hmade, hserve, hfails, herror⟩
  · cases hok
  · obtain rfl := Except.error.inj herror
    exact ⟨before, last, hmade, hserve, hfails⟩

end Ends

end

/-! ## What a call comes to -/

/-- **A call asks for requested indices only, in increasing order, and for one of them exactly if no
exchange before its turn failed or brought a link for it. It succeeds exactly if all exchanges served, and
then it has for each request the last link that was returned. Else the last exchange only failed, and
the call with it.** -/
theorem resolve_follows_answers (server : Server) (requests : List LinkRequest) :
    ∃ made result, resolve server requests = (made, result) ∧
      (∀ n x, made[n]? = some x → x.answer = server (made.take n) x.index) ∧
      (made.map Exchange.index).Pairwise (· < ·) ∧
      (∀ x ∈ made, ∃ r ∈ requests, r.chunkIndex = x.index) ∧
      (∀ r ∈ requests, (∃ x ∈ made, x.index = r.chunkIndex) ↔
        ∀ x ∈ made, x.index < r.chunkIndex → x.Serves ∧ ∀ e ∈ x.brought, e.1 ≠ r.chunkIndex) ∧
      ((∃ t, result = .ok t) ↔ ∀ x ∈ made, x.Serves) ∧
      (∀ t, result = .ok t → (∀ r ∈ requests, t.has r.chunkIndex = true) ∧
        (∀ i, t.find? i = lastFor (returned made) i) ∧
        ∀ e ∈ t, e.2.chunkIndex = e.1 ∧ t.find? e.1 = some e.2) ∧
      ∀ e, result = .error e → ∃ before last, made = before ++ [last] ∧
        (∀ x ∈ before, x.Serves) ∧ last.FailsWith e := by
  obtain ⟨made, result, hresolve⟩ : ∃ made result, resolve server requests = (made, result) :=
    ⟨_, _, rfl⟩
  have h : Ends server (requests.map LinkRequest.chunkIndex) made result := by
    have hends := (Stands.start server requests).ends_call
    rwa [← resolve, hresolve] at hends
  refine ⟨made, result, hresolve, h.heard, h.increase, ?_, ?_, h.ok_iff, ?_, ?_⟩
  · intro x hx
    exact List.mem_map.1 (h.requested x hx)
  · intro r hr
    exact h.decided _ (List.mem_map_of_mem hr)
  · rintro t rfl
    have hserve := h.ok_iff.1 ⟨t, rfl⟩
    obtain rfl := h.eq_of_ok
    refine ⟨?_, LinkTable.find?_insertAll_nil _, ?_⟩
    · intro r hr
      have hreturned := (h.decided _ (List.mem_map_of_mem hr)).returned hserve
      exact (LinkTable.has_insertAll _ _ _).2 (Or.inl hreturned)
    · intro e he
      have hlast := LinkTable.mem_insertAll_nil.1 he
      obtain ⟨x, -, hbrought⟩ := List.mem_flatMap.1 (LinkTable.mem_of_lastFor hlast)
      exact ⟨Exchange.chunkIndex_of_brought hbrought,
        (LinkTable.find?_insertAll_nil _ _).trans hlast⟩
  · rintro e rfl
    exact h.last_of_error

end ResultChunks.Statement.Resolver
