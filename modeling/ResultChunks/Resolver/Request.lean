import ResultChunks.Link

/-!
# Asking for links

A request names a chunk and the row it starts at. An answer is a table of links by chunk index; it
may hold links for chunks that were not asked for.
-/

namespace ResultChunks

/-- A chunk that needs a link. -/
structure LinkRequest where
  chunkIndex : Int
  rowOffset : Int
deriving DecidableEq, Repr, Inhabited

/-- Links by chunk index, one for each index. -/
abbrev LinkTable := List (Int × Link)

namespace LinkTable

/-- The link for a chunk. -/
def find? (t : LinkTable) (index : Int) : Option Link := List.lookup index t

/-- Is there a link for a chunk? -/
def has (t : LinkTable) (index : Int) : Bool := (t.find? index).isSome

/-- Put a link for a chunk into the table, in place of an earlier one. -/
def insert (t : LinkTable) (index : Int) (link : Link) : LinkTable :=
  (index, link) :: t.filter fun e => e.1 ≠ index

theorem find?_insert_self (t : LinkTable) (index : Int) (link : Link) :
    (t.insert index link).find? index = some link := by
  simp [insert, find?]

theorem find?_insert_of_ne (t : LinkTable) {index i : Int} (link : Link) (h : i ≠ index) :
    (t.insert index link).find? i = t.find? i := by
  have key : ∀ u : LinkTable,
      List.lookup i (u.filter fun e => e.1 ≠ index) = List.lookup i u := by
    intro u
    induction u with
    | nil => rfl
    | cons e u ih =>
      obtain ⟨k, v⟩ := e
      by_cases hk : k = index
      · have hik : (i == k) = false := by simpa [hk] using h
        simp only [List.filter_cons, hk, ne_eq, not_true_eq_false, decide_false, Bool.false_eq_true,
          if_false, List.lookup_cons]
        rw [← hk, hik]
        simpa [hk] using ih
      · simp only [List.filter_cons, hk, ne_eq, not_false_eq_true, decide_true, if_true,
          List.lookup_cons]
        cases hik : (i == k) with
        | true => rfl
        | false => exact ih
  simp only [insert, find?, List.lookup_cons]
  rw [show (i == index) = false from by simpa using h]
  exact key t

end LinkTable

end ResultChunks
