import Mathlib.Data.Nat.Bitwise
import ResultChunks.Proofs.RowSet.Grammar

/-!
# No access out of range

The readers of a row-set take bytes from a list, which knows where it ends. A program that reads a
buffer looks at the length now and then, and in between takes what it trusts to be there: all values
of a column of fixed width after one look, and the bits of a bitmap after a look at its size. Here
row-sets are read in that way. Taking bytes that are not there, an index past the end of a bitmap
and a product that needs more than 64 bits give no result at all, not even a fault.

It comes to the same (`Raw.agrees_decode`), so no such thing happens, whatever the counts and
lengths in the input say.
-/

namespace ResultChunks.RowSet

namespace Raw

/-! ## Reading with few looks -/

/-- What comes of a computation: a value, a fault, or nothing after an access out of range. -/
abbrev Outcome (α : Type) := ExceptT Fault Option α

/-- An access out of range. -/
def outOfRange {α : Type} : Outcome α := (none : Option (Except Fault α))

/-- A look whether there are enough bytes left. -/
def ensure (n : Nat) (part : Part) (s : List UInt8) : Outcome Unit :=
  if s.length < n then throw (.truncated part) else pure ()

/-- Bytes off the front, which have to be there. -/
def grab (n : Nat) (s : List UInt8) : Outcome (List UInt8 × List UInt8) :=
  match Bytes.split? n s with
  | some r => pure r
  | none => outOfRange

/-- A number off the front, which has to be there. -/
def grabNumber (width : Nat) (s : List UInt8) : Outcome (Nat × List UInt8) := do
  let (bs, s) ← grab width s
  pure (Bytes.toNat bs, s)

/-- A product of sizes. -/
def times (a b : Nat) : Outcome Nat := if a * b < 2 ^ 64 then pure (a * b) else outOfRange

/-- The bit of a row in a bitmap, which has to cover the row. -/
def isAbsent (bitmap : List UInt8) (row : Nat) : Outcome Bool :=
  match bitmap[row / 8]? with
  | some b => pure (b &&& ((1 : UInt8) <<< UInt8.ofNat (row % 8)) != 0)
  | none => outOfRange

def take (n : Nat) (part : Part) (s : List UInt8) : Outcome (List UInt8 × List UInt8) := do
  ensure n part s
  grab n s

def number (width : Nat) (part : Part) (s : List UInt8) : Outcome (Nat × List UInt8) := do
  ensure width part s
  grabNumber width s

def block (lengthPart part : Part) (s : List UInt8) : Outcome (List UInt8 × List UInt8) := do
  let (n, s) ← number 4 lengthPart s
  take n part s

def textBlock (lengthPart part : Part) (fault : Utf8.Fault → Fault) (s : List UInt8) :
    Outcome (String × List UInt8) := do
  let (bs, s) ← block lengthPart part s
  match Utf8.decode bs with
  | .ok t => pure (t, s)
  | .error f => throw (fault f)

/-- The cells of a number of rows from a row on. -/
def cells {α : Type} (bitmap : List UInt8) (get : Nat → List UInt8 → Outcome (α × List UInt8)) :
    Nat → Nat → List UInt8 → Outcome (List (Option α) × List UInt8)
  | _, 0, s => pure ([], s)
  | row, n + 1, s => do
    let (v, s) ← get row s
    let absent ← isAbsent bitmap row
    let (cs, s) ← cells bitmap get (row + 1) n s
    pure ((if absent then none else some v) :: cs, s)

/-- The cells of a column of fixed width. One look is for all of them. -/
def fixed {α : Type} (bitmap : List UInt8) (rows width : Nat) (of : Nat → α) (s : List UInt8) :
    Outcome (List (Option α) × List UInt8) := do
  let size ← times rows width
  ensure size .values s
  cells bitmap (fun _ s => do
    let (n, s) ← grabNumber width s
    pure (of n, s)) 0 rows s

/-- The cells of a column of a kind. -/
def values (column : String) (bitmap : List UInt8) (rows : Nat) :
    (k : Kind) → List UInt8 → Outcome (List (Option k.type.Cell) × List UInt8)
  | .bool => fixed bitmap rows 1 fun n => n != 0
  | .int8 => fixed bitmap rows 1 fun n => (UInt8.ofNat n).toInt8
  | .int16 => fixed bitmap rows 2 fun n => (UInt16.ofNat n).toInt16
  | .int32 => fixed bitmap rows 4 fun n => (UInt32.ofNat n).toInt32
  | .int64 => fixed bitmap rows 8 fun n => (UInt64.ofNat n).toInt64
  | .float64 => fixed bitmap rows 8 UInt64.ofNat
  | .utf8 => cells bitmap (fun row => textBlock .textLength .text (.valueNotText column row)) 0 rows
  | .binary => cells bitmap (fun _ => block .bytesLength .bytes) 0 rows

def column (rows : Nat) (s : List UInt8) : Outcome (Column × List UInt8) := do
  let (name, s) ← textBlock .nameLength .name .nameNotText s
  let (tag, s) ← number 1 .tag s
  match Kind.ofTag? tag with
  | none => throw (.unknownTag tag)
  | some k => do
    let (bitmap, s) ← block .bitmapLength .bitmap s
    if bitmap.length < Bytes.sizeOfBits rows then throw (.shortBitmap name rows)
    else do
      let (cs, s) ← values name bitmap rows k s
      pure (⟨name, k.type, true, cs⟩, s)

def columns (rows : Nat) : Nat → List UInt8 → Outcome (List Column × List UInt8)
  | 0, s => pure ([], s)
  | n + 1, s => do
    let (c, s) ← column rows s
    let (cs, s) ← columns rows n s
    pure (c :: cs, s)

/-- The counts of a header, all of which is there after one look. -/
def header (s : List UInt8) : Outcome ((Nat × Nat) × List UInt8) := do
  ensure headerSize .header s
  let (start, s) ← grab 4 s
  if start ≠ magic then throw .badMagic
  else do
    let (v, s) ← grabNumber 1 s
    if v ≠ version then throw (.version v)
    else do
      let (width, s) ← grabNumber 4 s
      let (rows, s) ← grabNumber 4 s
      pure ((width, rows), s)

def decode (bytes : List UInt8) : Outcome Batch := do
  let ((width, rows), s) ← header bytes
  let (cs, s) ← columns rows width s
  if s ≠ [] then throw (.trailing s.length)
  else
    match Batch.ofColumns? cs rows with
    | some b => pure b
    | none => throw .noBatch

/-! ## It comes to the same -/

/-- A computation stays in range and ends as given. -/
def Agrees {α : Type} (r : Outcome α) (x : Except Fault α) : Prop := r = some x

section

variable {α β : Type}

theorem Agrees.bind {r : Outcome α} {x : Except Fault α} {f : α → Outcome β}
    {g : α → Except Fault β} (h : Agrees r x) (hf : ∀ a, x = .ok a → Agrees (f a) (g a)) :
    Agrees (r >>= f) (x >>= g) := by
  rw [Agrees] at h
  subst h
  cases x with
  | error e => rfl
  | ok a => exact hf a rfl

theorem agrees_pure (a : α) : Agrees (pure a) (.ok a) := rfl

theorem agrees_throw (fault : Fault) : Agrees (throw fault : Outcome α) (.error fault) := rfl

theorem agrees_take (n : Nat) (part : Part) (s : List UInt8) :
    Agrees (take n part s) (RowSet.take n part s) := by
  rw [take, ensure, RowSet.take, grab]
  cases h : Bytes.split? n s with
  | none =>
      rw [if_pos (Bytes.split?_eq_none_iff.1 h)]
      exact agrees_throw _
  | some p =>
      have hlen : ¬ s.length < n := by
        intro hlt
        rw [Bytes.split?_eq_none_iff.2 hlt] at h
        cases h
      rw [if_neg hlen]
      exact agrees_pure p

theorem agrees_number (width : Nat) (part : Part) (s : List UInt8) :
    Agrees (number width part s) (RowSet.number width part s) := by
  have h : number width part s = take width part s >>= fun p => pure (Bytes.toNat p.1, p.2) := by
    rw [number, take, bind_assoc]
    rfl
  rw [h]
  exact (agrees_take width part s).bind fun p _ => agrees_pure _

theorem agrees_block (lengthPart part : Part) (s : List UInt8) :
    Agrees (block lengthPart part s) (RowSet.block lengthPart part s) :=
  (agrees_number 4 lengthPart s).bind fun p _ => agrees_take p.1 part p.2

theorem agrees_textBlock (lengthPart part : Part) (fault : Utf8.Fault → Fault) (s : List UInt8) :
    Agrees (textBlock lengthPart part fault s) (RowSet.textBlock lengthPart part fault s) := by
  refine (agrees_block lengthPart part s).bind fun p _ => ?_
  obtain ⟨bs, s⟩ := p
  dsimp only
  cases Utf8.decode bs with
  | ok t => exact agrees_pure _
  | error f => exact agrees_throw _

theorem and_shift_ne_zero (b : UInt8) {i : Nat} (h : i < 8) :
    (b &&& ((1 : UInt8) <<< UInt8.ofNat i) != 0) = b.toNat.testBit i := by
  have hshift : ((1 : UInt8) <<< UInt8.ofNat i).toNat = 2 ^ i := by
    have hi : (UInt8.ofNat i).toNat % 8 = i := by
      rw [UInt8.toNat_ofNat']
      omega
    have hpow : 2 ^ i < 2 ^ 8 := Nat.pow_lt_pow_right Nat.one_lt_two h
    rw [UInt8.toNat_shiftLeft, hi, UInt8.toNat_one, Nat.one_shiftLeft, Nat.mod_eq_of_lt hpow]
  rw [Bool.eq_iff_iff, bne_iff_ne, ne_eq, ← UInt8.toNat_inj, UInt8.toNat_and, hshift,
    Nat.and_two_pow]
  cases b.toNat.testBit i <;> simp

theorem isAbsent_eq {bitmap : List UInt8} {row : Nat} (h : row < 8 * bitmap.length) :
    isAbsent bitmap row = pure (Bytes.bit bitmap row) := by
  have hbyte : row / 8 < bitmap.length := by omega
  rw [isAbsent, List.getElem?_eq_getElem hbyte]
  dsimp only
  rw [and_shift_ne_zero _ (by omega), Bytes.bit, List.getD_eq_getElem?_getD,
    List.getElem?_eq_getElem hbyte]
  rfl

variable {column : String} {k : Kind} {bitmap : List UInt8}

/-- Row after row, as long as there is room for the next value whenever there is room for all. -/
theorem agrees_cells {get : Nat → List UInt8 → Outcome (k.type.Cell × List UInt8)}
    {R : Nat → List UInt8 → Prop}
    (hget : ∀ {n row s}, R (n + 1) s → Agrees (get row s) (value (.valueNotText column row) k s))
    (hroom : ∀ {n row s v s'}, R (n + 1) s →
      value (.valueNotText column row) k s = .ok (v, s') → R n s')
    {n row : Nat} {s : List UInt8} (h : R n s) (hbits : row + n ≤ 8 * bitmap.length) :
    Agrees (cells bitmap get row n s)
      (RowSet.cells column k row (((Bytes.unpack bitmap).drop row).take n) s) := by
  induction n generalizing row s with
  | zero => exact agrees_pure _
  | succ n ih =>
      have hrow : row < (Bytes.unpack bitmap).length := by
        rw [Bytes.length_unpack]
        omega
      have hbit : (Bytes.unpack bitmap)[row] = Bytes.bit bitmap row := by
        have h : (Bytes.unpack bitmap)[row]? = some (Bytes.bit bitmap row) :=
          Bytes.getElem?_unpack (by omega)
        rw [List.getElem?_eq_getElem hrow] at h
        exact Option.some.inj h
      rw [List.drop_eq_getElem_cons hrow, List.take_succ_cons, hbit, cells, RowSet.cells]
      refine (hget h).bind fun p hp => ?_
      obtain ⟨v, s'⟩ := p
      dsimp only
      rw [isAbsent_eq (by omega), pure_bind]
      exact (ih (hroom h hp) (by omega)).bind fun q _ => agrees_pure _

theorem cells_short {width : Nat} {of : Nat → k.type.Cell}
    (hk : ∀ blame s, value blame k s = RowSet.number width .values s >>= fun p =>
      .ok (of p.1, p.2)) {row : Nat} {absent : List Bool} {s : List UInt8}
    (h : s.length < absent.length * width) :
    RowSet.cells column k row absent s = .error (.truncated .values) := by
  induction absent generalizing row s with
  | nil => exact absurd h (by simp)
  | cons a absent ih =>
      rw [RowSet.cells]
      dsimp only
      rw [hk, RowSet.number, RowSet.take]
      cases hs : Bytes.split? width s with
      | none => rfl
      | some p =>
          obtain ⟨bs, s'⟩ := p
          obtain ⟨rfl, rfl⟩ := Bytes.split?_eq_some_iff.1 hs
          have hrest : s'.length < absent.length * bs.length := by
            rw [List.length_cons, Nat.succ_mul, List.length_append] at h
            omega
          have hcells : RowSet.cells column k (row + 1) absent s' = .error (.truncated .values) :=
            ih hrest
          change (RowSet.cells column k (row + 1) absent s' >>= _) = _
          rw [hcells]
          rfl

/-- **One look is enough for a column of fixed width.** -/
theorem agrees_fixed {rows : Nat} (width : Nat) (of : Nat → k.type.Cell)
    (hk : ∀ blame s, value blame k s = RowSet.number width .values s >>= fun p =>
      .ok (of p.1, p.2)) (hwidth : width ≤ 8) (hrows : rows < 2 ^ 32)
    (hbits : rows ≤ 8 * bitmap.length) (s : List UInt8) :
    Agrees (fixed bitmap rows width of s)
      (RowSet.cells column k 0 ((Bytes.unpack bitmap).take rows) s) := by
  have hsize : rows * width < 2 ^ 64 := by
    have : rows * width ≤ 2 ^ 32 * 8 := Nat.mul_le_mul (Nat.le_of_lt hrows) hwidth
    omega
  rw [fixed, times, if_pos hsize, pure_bind, ensure]
  by_cases hshort : s.length < rows * width
  · have hlen : ((Bytes.unpack bitmap).take rows).length = rows := by
      rw [List.length_take, Bytes.length_unpack]
      omega
    rw [if_pos hshort, cells_short hk (by rw [hlen]; exact hshort)]
    exact agrees_throw _
  · rw [if_neg hshort]
    refine agrees_cells (R := fun n s => n * width ≤ s.length) ?_ ?_ (by omega) (by omega)
    · intro n row s hroom
      rw [Nat.succ_mul] at hroom
      have hlen : ¬ s.length < width := by omega
      have hgrab : (grabNumber width s : Outcome _) = number width .values s := by
        rw [number, ensure, if_neg hlen, pure_bind]
      rw [hgrab, hk]
      exact (agrees_number width .values s).bind fun p _ => agrees_pure _
    · intro n row s v s' hroom hv
      rw [hk, bind_eq_ok_iff] at hv
      obtain ⟨⟨m, s''⟩, hm, hv⟩ := hv
      dsimp only at hv
      obtain ⟨rfl, rfl⟩ := Prod.mk.inj (Except.ok.inj hv)
      obtain ⟨bytes, ⟨-, rfl⟩, rfl⟩ := (reads_number _ _ _ _ _).1 hm
      rw [Nat.succ_mul, List.length_append, Bytes.length_ofNat] at hroom
      omega

/-- A column whose values say how long they are. -/
theorem agrees_blocks {get : Nat → List UInt8 → Outcome (k.type.Cell × List UInt8)} {rows : Nat}
    (hget : ∀ row s, Agrees (get row s) (value (.valueNotText column row) k s))
    (hbits : rows ≤ 8 * bitmap.length) (s : List UInt8) :
    Agrees (cells bitmap get 0 rows s)
      (RowSet.cells column k 0 ((Bytes.unpack bitmap).take rows) s) :=
  agrees_cells (R := fun _ _ => True) (fun _ => hget _ _) (fun _ _ => trivial) trivial (by omega)

theorem agrees_values {rows : Nat} (hrows : rows < 2 ^ 32) (hbits : rows ≤ 8 * bitmap.length)
    (k : Kind) (s : List UInt8) : Agrees (values column bitmap rows k s)
      (RowSet.cells column k 0 ((Bytes.unpack bitmap).take rows) s) := by
  cases k with
  | bool =>
      exact agrees_fixed (k := .bool) 1 (fun n => n != 0) (fun _ _ => rfl)
        (by decide) hrows hbits s
  | int8 =>
      exact agrees_fixed (k := .int8) 1 (fun n => (UInt8.ofNat n).toInt8) (fun _ _ => rfl)
        (by decide) hrows hbits s
  | int16 =>
      exact agrees_fixed (k := .int16) 2 (fun n => (UInt16.ofNat n).toInt16) (fun _ _ => rfl)
        (by decide) hrows hbits s
  | int32 =>
      exact agrees_fixed (k := .int32) 4 (fun n => (UInt32.ofNat n).toInt32) (fun _ _ => rfl)
        (by decide) hrows hbits s
  | int64 =>
      exact agrees_fixed (k := .int64) 8 (fun n => (UInt64.ofNat n).toInt64) (fun _ _ => rfl)
        (by decide) hrows hbits s
  | float64 =>
      exact agrees_fixed (k := .float64) 8 UInt64.ofNat (fun _ _ => rfl)
        (by decide) hrows hbits s
  | utf8 => exact agrees_blocks (k := .utf8) (fun _ s => agrees_textBlock _ _ _ s) hbits s
  | binary => exact agrees_blocks (k := .binary) (fun _ s => agrees_block _ _ s) hbits s

theorem agrees_column {rows : Nat} (hrows : rows < 2 ^ 32) (s : List UInt8) :
    Agrees (Raw.column rows s) (RowSet.column rows s) := by
  refine (agrees_textBlock _ _ _ s).bind fun p _ => ?_
  obtain ⟨name, s⟩ := p
  refine (agrees_number 1 .tag s).bind fun p _ => ?_
  obtain ⟨tag, s⟩ := p
  dsimp only
  cases Kind.ofTag? tag with
  | none => exact agrees_throw _
  | some k =>
      refine (agrees_block _ _ s).bind fun p _ => ?_
      obtain ⟨bitmap, s⟩ := p
      dsimp only
      by_cases hshort : bitmap.length < Bytes.sizeOfBits rows
      · rw [if_pos hshort, if_pos hshort]
        exact agrees_throw _
      · rw [if_neg hshort, if_neg hshort]
        rw [Bytes.sizeOfBits, Nat.not_lt] at hshort
        -- the bitmap covers the rows, so its bits may be taken
        exact (agrees_values hrows (by omega) k s).bind fun p _ => agrees_pure _

theorem agrees_columns {rows : Nat} (hrows : rows < 2 ^ 32) (n : Nat) (s : List UInt8) :
    Agrees (columns rows n s) (RowSet.columns rows n s) := by
  induction n generalizing s with
  | zero => exact agrees_pure _
  | succ n ih =>
      exact (agrees_column hrows s).bind fun p _ => (ih p.2).bind fun q _ => agrees_pure _

theorem grab_append {n : Nat} {bs : List UInt8} (h : bs.length = n) (rest : List UInt8) :
    grab n (bs ++ rest) = pure (bs, rest) := by
  rw [grab, Bytes.split?_eq_some_iff.2 ⟨h, rfl⟩]

theorem grabNumber_append {n : Nat} {bs : List UInt8} (h : bs.length = n) (rest : List UInt8) :
    grabNumber n (bs ++ rest) = pure (Bytes.toNat bs, rest) := by
  rw [grabNumber, grab_append h, pure_bind]

/-- One look is enough for a header. -/
theorem agrees_header (s : List UInt8) : Agrees (header s) (RowSet.header s) := by
  rw [header, ensure]
  by_cases hshort : s.length < headerSize
  · rw [if_pos hshort, RowSet.header]
    dsimp only
    rw [RowSet.take, Bytes.split?_eq_none_iff.2 hshort]
    exact agrees_throw _
  · obtain ⟨start, v, width, rows, rest, hp, rfl⟩ := exists_pieces (Nat.not_lt.1 hshort)
    rw [if_neg hshort, pure_bind, grab_append hp.start, pure_bind, header_of_pieces hp]
    dsimp only
    by_cases hmagic : start = magic
    · rw [if_neg (not_not.2 hmagic), if_neg (not_not.2 hmagic), grabNumber_append hp.version,
        pure_bind]
      dsimp only
      by_cases hversion : Bytes.toNat v = version
      · rw [if_neg (not_not.2 hversion), if_neg (not_not.2 hversion),
          grabNumber_append hp.width, pure_bind]
        dsimp only
        rw [grabNumber_append hp.rows, pure_bind]
        exact agrees_pure _
      · rw [if_pos hversion, if_pos hversion]
        exact agrees_throw _
    · rw [if_pos hmagic, if_pos hmagic]
      exact agrees_throw _

/-- **Reading with few looks stays in range**, on all inputs. -/
theorem agrees_decode (bytes : List UInt8) : Agrees (decode bytes) (RowSet.decode bytes) := by
  refine (agrees_header bytes).bind fun p hp => ?_
  obtain ⟨⟨width, rows⟩, s⟩ := p
  obtain ⟨_, ⟨-, hrows, -⟩, -⟩ := (reads_header _ _ _).1 hp
  refine (agrees_columns hrows width s).bind fun p _ => ?_
  obtain ⟨cs, s⟩ := p
  dsimp only
  by_cases hend : s = []
  · rw [if_neg (not_not.2 hend), if_neg (not_not.2 hend)]
    cases Batch.ofColumns? cs rows with
    | none => exact agrees_throw _
    | some b => exact agrees_pure _
  · rw [if_pos hend, if_pos hend]
    exact agrees_throw _

end

end Raw

/-- **The bytes that are accepted are the row-sets, and reading them is safe.** Whatever the bytes
are, they are read as a batch exactly if the grammar says that they are a row-set of this batch, and
with a fault if they are no row-set. A program that looks at the length of its buffer once for a
header, a length, a block or all values of a column of fixed width does the same: it takes no bytes
that are not there, asks for no bit past the end of a bitmap, and computes no size that is too
large. -/
theorem decode_exact (bytes : List UInt8) : (∀ b, decode bytes = .ok b ↔ IsRowSet bytes b)
    ∧ ((¬ ∃ b, IsRowSet bytes b) → ∃ fault, decode bytes = .error fault)
    ∧ Raw.decode bytes = some (decode bytes) := by
  refine ⟨fun b => decode_eq_ok_iff, ?_, Raw.agrees_decode bytes⟩
  intro hno
  cases h : decode bytes with
  | ok b => exact absurd ⟨b, decode_eq_ok_iff.1 h⟩ hno
  | error fault => exact ⟨fault, rfl⟩

end ResultChunks.RowSet
