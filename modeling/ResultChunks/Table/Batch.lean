import ResultChunks.Table.ColumnType

/-!
# Batches

A batch is a table with a fixed number of rows: columns of that many cells, a cell being a value or
absent. A batch may have no columns and still have rows. `Batch.ofColumns?` is the only check a
table has to pass: columns of the stated length, and no absent cell where none is allowed.
-/

namespace ResultChunks

/-- A column's name, type and whether cells may be absent. -/
structure Field where
  name : String
  type : ColumnType
  nullable : Bool
deriving DecidableEq, Repr, Inhabited

/-- The fields of a table, in order. -/
abbrev Schema := List Field

/-- A named column of cells. -/
structure Column where
  name : String
  type : ColumnType
  nullable : Bool
  cells : List (Option type.Cell)

namespace Column

/-- The column without its cells. -/
def field (c : Column) : Field := ⟨c.name, c.type, c.nullable⟩

/-- Does the column hold cells where the rules ask for none absent? -/
def nullsAllowed (c : Column) : Bool := c.nullable || c.cells.all Option.isSome

instance : DecidableEq Column := fun a b =>
  match a, b with
  | ⟨n, t, u, cs⟩, ⟨n', t', u', cs'⟩ =>
    if h : t = t' then by
      subst h
      exact if h : n = n' ∧ u = u' ∧ cs = cs' then
        .isTrue (by rw [h.1, h.2.1, h.2.2])
      else .isFalse (by intro e; injection e; simp_all)
    else .isFalse (by intro e; injection e; contradiction)

end Column

/-- A table with a fixed number of rows. -/
structure Batch where
  columns : List Column
  rows : Nat
deriving DecidableEq

namespace Batch

instance : Inhabited Batch := ⟨⟨[], 0⟩⟩

/-- Every column has a cell per row, and absent cells only where they are allowed. -/
def WellFormed (b : Batch) : Prop :=
  ∀ c ∈ b.columns, c.cells.length = b.rows ∧ c.nullsAllowed = true

instance (b : Batch) : Decidable b.WellFormed := by unfold WellFormed; infer_instance

/-- The batch of some columns, if they form one. -/
def ofColumns? (columns : List Column) (rows : Nat) : Option Batch :=
  if (⟨columns, rows⟩ : Batch).WellFormed then some ⟨columns, rows⟩ else none

/-- The schema of a batch. -/
def schema (b : Batch) : Schema := b.columns.map Column.field

/-- The number of rows in a list of batches. -/
def totalRows (bs : List Batch) : Nat := (bs.map Batch.rows).foldl (· + ·) 0

theorem ofColumns?_eq_some_iff {columns : List Column} {rows : Nat} {b : Batch} :
    ofColumns? columns rows = some b ↔
      b = ⟨columns, rows⟩ ∧ (⟨columns, rows⟩ : Batch).WellFormed := by
  unfold ofColumns?
  split <;> simp_all [eq_comm]

end Batch

end ResultChunks
