import Mathlib.Data.List.Induction
import ResultChunks.Resolver.Request

/-!
# Tables that are filled entry by entry

A resolver fills its tables one link at a time, and a later link for a chunk takes the place of an
earlier one. What such a table holds is read off the entries in the order they came: for each chunk
the last.
-/

namespace ResultChunks.LinkTable

/-- Put entries into a table, one after the other. -/
def insertAll (t : LinkTable) (es : List (Int × Link)) : LinkTable :=
  es.foldl (fun t e => t.insert e.1 e.2) t

/-- Of entries in the order they came, the last link for a chunk. -/
def lastFor (es : List (Int × Link)) (index : Int) : Option Link := es.reverse.lookup index

@[simp] theorem lastFor_nil (index : Int) : lastFor [] index = none := rfl

theorem lastFor_append (es fs : List (Int × Link)) (index : Int) :
    lastFor (es ++ fs) index = (lastFor fs index).or (lastFor es index) := by
  simp [lastFor, List.lookup_append]

theorem lastFor_singleton (e : Int × Link) (index : Int) :
    lastFor [e] index = if index = e.1 then some e.2 else none := by
  obtain ⟨key, l⟩ := e
  rw [lastFor, List.reverse_singleton, List.lookup_cons, List.lookup_nil]
  by_cases h : index = key
  · simp [h]
  · have hne : (index == key) = false := by simpa using h
    simp [h, hne]

/-- There is a last link for the chunks that entries are for. -/
theorem isSome_lastFor {es : List (Int × Link)} {index : Int} :
    (lastFor es index).isSome = true ↔ ∃ e ∈ es, e.1 = index := by
  induction es using List.reverseRecOn with
  | nil => simp
  | append_singleton es e ih =>
    rw [lastFor_append, Option.isSome_or, Bool.or_eq_true, ih, lastFor_singleton]
    by_cases h : index = e.1
    · simp [h]
    · have hne : ¬ e.1 = index := fun he => h he.symm
      simp [h, hne]

theorem mem_of_lastFor {es : List (Int × Link)} {index : Int} {l : Link}
    (h : lastFor es index = some l) : (index, l) ∈ es := by
  obtain ⟨before, after, heq, -⟩ := List.lookup_eq_some_iff.1 h
  have hmem : (index, l) ∈ es.reverse := by simp [heq]
  exact List.mem_reverse.1 hmem

theorem find?_insert (t : LinkTable) (index i : Int) (l : Link) :
    (t.insert index l).find? i = if i = index then some l else t.find? i := by
  by_cases h : i = index
  · rw [if_pos h, h, find?_insert_self]
  · rw [if_neg h, find?_insert_of_ne _ _ h]

theorem insertAll_append (t : LinkTable) (es fs : List (Int × Link)) :
    t.insertAll (es ++ fs) = (t.insertAll es).insertAll fs :=
  List.foldl_append

/-- **A table holds the last of the entries that were put into it, and else what it held before.** -/
theorem find?_insertAll (t : LinkTable) (es : List (Int × Link)) (index : Int) :
    (t.insertAll es).find? index = (lastFor es index).or (t.find? index) := by
  induction es using List.reverseRecOn with
  | nil => rfl
  | append_singleton es e ih =>
    rw [insertAll_append]
    show ((t.insertAll es).insert e.1 e.2).find? index = _
    rw [find?_insert, ih, lastFor_append, lastFor_singleton]
    by_cases h : index = e.1
    · simp [h]
    · simp [h]

theorem find?_insertAll_nil (es : List (Int × Link)) (index : Int) :
    (insertAll [] es).find? index = lastFor es index := by
  rw [find?_insertAll]
  exact Option.or_none

theorem has_insertAll (t : LinkTable) (es : List (Int × Link)) (index : Int) :
    (t.insertAll es).has index = true ↔ (∃ e ∈ es, e.1 = index) ∨ t.has index = true := by
  rw [has, find?_insertAll, Option.isSome_or, Bool.or_eq_true, isSome_lastFor, has]

/-- The entries of a table that is filled from nothing are the last for each chunk. -/
theorem mem_insertAll_nil {es : List (Int × Link)} {e : Int × Link} :
    e ∈ insertAll [] es ↔ lastFor es e.1 = some e.2 := by
  induction es using List.reverseRecOn with
  | nil => simp [insertAll]
  | append_singleton es e' ih =>
    rw [insertAll_append]
    show e ∈ (insertAll [] es).insert e'.1 e'.2 ↔ _
    rw [insert, List.mem_cons, List.mem_filter, ih, lastFor_append, lastFor_singleton]
    by_cases h : e.1 = e'.1
    · have heq : e = e' ↔ e'.2 = e.2 := by
        rw [Prod.ext_iff]
        exact ⟨fun he => he.2.symm, fun h2 => ⟨h, h2.symm⟩⟩
      simp [h, heq]
    · have hne : e ≠ e' := fun he => h (congrArg Prod.fst he)
      simp [h, hne]

end ResultChunks.LinkTable
