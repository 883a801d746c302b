import ResultChunks.Arrow.Fault
import ResultChunks.Bytes.LittleEndian
import ResultChunks.Text.Utf8

/-!
# Tables inside bytes

The metadata of an Arrow message is a tree of tables in one run of bytes. A table starts with the
distance back to its list of slots, and a slot holds the distance from the table to the value of a
field, or zero for a field that keeps its default. Texts, vectors and inner tables are reached by
one more distance. Nothing in the bytes is trusted: each read says so when it leaves the run.
-/

namespace ResultChunks.Arrow

/-- A run of bytes that is read at positions. -/
abbrev Run := Array UInt8

namespace Run

/-- The bytes at a position. -/
def slice (run : Run) (position size : Nat) : Except Fault (List UInt8) :=
  if position + size ≤ run.size then .ok (run.extract position (position + size)).toList
  else .error .badMessage

/-- A natural number at a position. -/
def natAt (run : Run) (width position : Nat) : Except Fault Nat :=
  (run.slice position width).map Bytes.toNat

/-- A whole number at a position, negative when its highest bit is set. -/
def intAt (run : Run) (width position : Nat) : Except Fault Int :=
  (run.natAt width position).map fun n =>
    if 2 * n < Nat.pow 256 width then (n : Int) else (n : Int) - Int.ofNat (Nat.pow 256 width)

/-- The position that the distance at a position leads to. -/
def follow (run : Run) (position : Nat) : Except Fault Nat :=
  (run.natAt 4 position).map (position + ·)

end Run

/-- A table: where it starts, and the distance to each of its fields. -/
structure FlatTable where
  run : Run
  position : Nat
  slots : List Nat
deriving Inhabited

namespace FlatTable

/-- The table at a position. -/
def read (run : Run) (position : Nat) : Except Fault FlatTable := do
  let back ← run.intAt 4 position
  let list := (position : Int) - back
  if list < 0 then .error .badMessage
  else
    let size ← run.natAt 2 list.toNat
    let slots ← (List.range ((size - 4) / 2)).mapM fun i => run.natAt 2 (list.toNat + 4 + 2 * i)
    .ok { run, position, slots }

/-- The outermost table of a run. -/
def root (run : Run) : Except Fault FlatTable := do
  let position ← run.follow 0
  read run position

/-- The position of a field's value, if the table has one. -/
def field? (t : FlatTable) (i : Nat) : Option Nat :=
  match t.slots[i]? with
  | none => none
  | some 0 => none
  | some distance => some (t.position + distance)

/-- A whole number, or its default. -/
def int (t : FlatTable) (i width : Nat) (default : Int) : Except Fault Int :=
  match t.field? i with
  | none => .ok default
  | some p => t.run.intAt width p

/-- A natural number, or zero. -/
def nat (t : FlatTable) (i width : Nat) : Except Fault Nat :=
  match t.field? i with
  | none => .ok 0
  | some p => t.run.natAt width p

/-- An inner table. -/
def table (t : FlatTable) (i : Nat) : Except Fault (Option FlatTable) :=
  match t.field? i with
  | none => .ok none
  | some p => do
    let p ← t.run.follow p
    (read t.run p).map some

/-- The count of a vector's items and the position of the first. -/
def vector (t : FlatTable) (i : Nat) : Except Fault (Option (Nat × Nat)) :=
  match t.field? i with
  | none => .ok none
  | some p => do
    let p ← t.run.follow p
    let count ← t.run.natAt 4 p
    .ok (some (count, p + 4))

/-- The items of a vector, each of a fixed size and read by one rule. A vector that would reach
beyond the run is refused before its items are read. -/
def items {α : Type} (t : FlatTable) (i size : Nat) (readAt : Nat → Except Fault α) :
    Except Fault (Option (List α)) := do
  match ← t.vector i with
  | none => .ok none
  | some (count, start) =>
    if t.run.size < start + count * size then .error .badMessage
    else ((List.range count).mapM fun k => readAt (start + k * size)).map some

/-- A text. -/
def text (t : FlatTable) (i : Nat) : Except Fault (Option String) := do
  match ← t.vector i with
  | none => .ok none
  | some (count, start) =>
    let bytes ← t.run.slice start count
    match Utf8.decode bytes with
    | .ok s => .ok (some s)
    | .error _ => .error .badMessage

end FlatTable

end ResultChunks.Arrow
