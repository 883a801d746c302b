import ResultChunks.Proofs.Bytes.Bits
import ResultChunks.RowSet.Decode

/-!
# The grammar of row-sets

Which bytes are the row-set of which batch is said here without a reader: a relation for each piece
of the layout, put together from those of its parts. The reader of a piece takes exactly the bytes
that the relation allows off the front of its input and leaves the rest (`Reads`). So the reader of
a whole input accepts exactly the row-sets.

An absent cell has a value like any other, and what this value is does not show in the batch. So one
batch has many row-sets: bitmaps may be longer than needed, and true is any byte that is not zero.
-/

namespace ResultChunks.RowSet

/-! ## The grammar -/

/-- Some content after its length, which takes four bytes. -/
def IsBlock (bytes content : List UInt8) : Prop :=
  content.length < 2 ^ 32 ∧ bytes = Bytes.ofNat 4 content.length ++ content

/-- The bytes of a value of a kind: numbers with their lowest byte first, a truth value in a byte
that is not zero exactly if it is true, texts and bytes after their length. -/
def IsValue : (k : Kind) → List UInt8 → k.type.Cell → Prop
  | .bool, bytes, (v : Bool) => ∃ b : UInt8, bytes = [b] ∧ (v = true ↔ b ≠ 0)
  | .int8, bytes, (n : Int8) => bytes = Bytes.ofNat 1 n.toUInt8.toNat
  | .int16, bytes, (n : Int16) => bytes = Bytes.ofNat 2 n.toUInt16.toNat
  | .int32, bytes, (n : Int32) => bytes = Bytes.ofNat 4 n.toUInt32.toNat
  | .int64, bytes, (n : Int64) => bytes = Bytes.ofNat 8 n.toUInt64.toNat
  | .float64, bytes, (n : UInt64) => bytes = Bytes.ofNat 8 n.toNat
  | .utf8, bytes, (s : String) => IsBlock bytes (Utf8.encode s)
  | .binary, bytes, (content : List UInt8) => IsBlock bytes content

/-- The bytes of some items, one after the other. -/
inductive Series {α : Type} (item : List UInt8 → α → Prop) : List UInt8 → List α → Prop where
  | nil : Series item [] []
  | cons {bytes rest : List UInt8} {x : α} {xs : List α} :
      item bytes x → Series item rest xs → Series item (bytes ++ rest) (x :: xs)

/-- The cells of a column: the values in the rows whose bit is not set. -/
def cellsOf {α : Type} (bitmap : List UInt8) (values : List α) : List (Option α) :=
  values.mapIdx fun row v => if Bytes.bit bitmap row then none else some v

/-- The bytes of a column with a number of rows. -/
inductive IsColumn (rows : Nat) : List UInt8 → Column → Prop where
  | column {name : String} {k : Kind} {bitmap nameBytes bitmapBytes valueBytes : List UInt8}
      {values : List k.type.Cell} :
      IsBlock nameBytes (Utf8.encode name) → IsBlock bitmapBytes bitmap →
      (rows + 7) / 8 ≤ bitmap.length →
      Series (IsValue k) valueBytes values → values.length = rows →
      IsColumn rows (nameBytes ++ UInt8.ofNat k.tag :: bitmapBytes ++ valueBytes)
        ⟨name, k.type, true, cellsOf bitmap values⟩

/-- The bytes of a whole row-set: the magic bytes, the version, the counts of columns and rows, and
the columns. -/
inductive IsRowSet : List UInt8 → Batch → Prop where
  | rowSet {columns : List Column} {rows : Nat} {bytes : List UInt8} :
      columns.length < 2 ^ 32 → rows < 2 ^ 32 → Series (IsColumn rows) bytes columns →
      IsRowSet ([0x44, 0x42, 0x52, 0x53, 1] ++ Bytes.ofNat 4 columns.length ++ Bytes.ofNat 4 rows
        ++ bytes) ⟨columns, rows⟩

section

variable {α : Type} {item : List UInt8 → α → Prop} {bytes : List UInt8} {xs : List α}

theorem series_zero : Series item bytes xs ∧ xs.length = 0 ↔ bytes = [] ∧ xs = [] := by
  constructor
  · rintro ⟨hseries, hlen⟩
    obtain rfl := List.length_eq_zero_iff.1 hlen
    cases hseries
    exact ⟨rfl, rfl⟩
  · rintro ⟨rfl, rfl⟩
    exact ⟨.nil, rfl⟩

theorem series_succ {n : Nat} : Series item bytes xs ∧ xs.length = n + 1 ↔
    ∃ x left right, item left x ∧ (∃ ys, (Series item right ys ∧ ys.length = n) ∧ xs = x :: ys)
      ∧ bytes = left ++ right := by
  constructor
  · rintro ⟨hseries, hlen⟩
    cases hseries with
    | nil => cases hlen
    | @cons left right x ys hx hseries =>
        exact ⟨x, left, right, hx, ⟨ys, ⟨hseries, Nat.succ.inj hlen⟩, rfl⟩, rfl⟩
  · rintro ⟨x, left, right, hx, ⟨ys, ⟨hseries, rfl⟩, rfl⟩, rfl⟩
    exact ⟨.cons hx hseries, rfl⟩

theorem Series.forall_mem {P : α → Prop} (h : Series item bytes xs)
    (hP : ∀ bytes x, item bytes x → P x) : ∀ x ∈ xs, P x := by
  induction h with
  | nil => simp
  | cons hx _ ih =>
      intro y hy
      rcases List.mem_cons.1 hy with rfl | hy
      · exact hP _ _ hx
      · exact ih y hy

end

/-! ## Readers of the grammar -/

/-- The reader takes off the front exactly what the relation allows. -/
def Reads {α : Type} (r : Reader α) (item : List UInt8 → α → Prop) : Prop :=
  ∀ s x rest, r s = .ok (x, rest) ↔ ∃ bytes, item bytes x ∧ s = bytes ++ rest

theorem bind_eq_ok_iff {ε α β : Type} {x : Except ε α} {f : α → Except ε β} {b : β} :
    (x >>= f) = .ok b ↔ ∃ a, x = .ok a ∧ f a = .ok b := by
  cases x with
  | error e => exact ⟨nofun, nofun⟩
  | ok a =>
      constructor
      · intro h
        exact ⟨a, rfl, h⟩
      · rintro ⟨a', ha, h⟩
        obtain rfl := Except.ok.inj ha
        exact h

variable {α : Type} {r : Reader α} {item : List UInt8 → α → Prop}

/-- A reader that goes on as the first value says reads both pieces. -/
theorem Reads.bind {β : Type} {f : α → Reader β} {further : α → List UInt8 → β → Prop}
    (hr : Reads r item) (hf : ∀ x, Reads (f x) (further x)) :
    Reads (fun s => r s >>= fun p => f p.1 p.2) fun bytes y =>
      ∃ x left right, item left x ∧ further x right y ∧ bytes = left ++ right := by
  intro s y rest
  rw [bind_eq_ok_iff]
  constructor
  · rintro ⟨⟨x, s'⟩, hx, hy⟩
    obtain ⟨left, hleft, rfl⟩ := (hr _ _ _).1 hx
    obtain ⟨right, hright, rfl⟩ := (hf x _ _ _).1 hy
    exact ⟨_, ⟨x, left, right, hleft, hright, rfl⟩, (List.append_assoc ..).symm⟩
  · rintro ⟨_, ⟨x, left, right, hleft, hright, rfl⟩, rfl⟩
    refine ⟨(x, right ++ rest), (hr _ _ _).2 ⟨left, hleft, List.append_assoc ..⟩, ?_⟩
    exact (hf x _ _ _).2 ⟨right, hright, rfl⟩

theorem Reads.congr {item' : List UInt8 → α → Prop} (h : Reads r item)
    (hiff : ∀ bytes x, item bytes x ↔ item' bytes x) : Reads r item' := by
  intro s x rest
  rw [h s x rest]
  exact exists_congr fun bytes => and_congr_left fun _ => hiff bytes x

theorem reads_pure (x : α) : Reads (fun s => .ok (x, s)) fun bytes y => bytes = [] ∧ y = x := by
  intro s y rest
  constructor
  · intro h
    obtain ⟨rfl, rfl⟩ := Prod.mk.inj (Except.ok.inj h)
    exact ⟨[], ⟨rfl, rfl⟩, rfl⟩
  · rintro ⟨_, ⟨rfl, rfl⟩, rfl⟩
    rfl

/-- A reader that works on what another one read. -/
theorem Reads.map {β : Type} (h : Reads r item) (g : α → β) :
    Reads (fun s => r s >>= fun p => .ok (g p.1, p.2))
      fun bytes y => ∃ x, item bytes x ∧ y = g x := by
  refine (h.bind fun x => reads_pure (g x)).congr ?_
  intro bytes y
  constructor
  · rintro ⟨x, left, _, hx, ⟨rfl, rfl⟩, rfl⟩
    exact ⟨x, by rwa [List.append_nil], rfl⟩
  · rintro ⟨x, hx, rfl⟩
    exact ⟨x, bytes, [], hx, ⟨rfl, rfl⟩, (List.append_nil _).symm⟩

theorem reads_take (n : Nat) (part : Part) :
    Reads (take n part) fun bytes x => x.length = n ∧ bytes = x := by
  intro s x rest
  have hsplit : take n part s = .ok (x, rest) ↔ Bytes.split? n s = some (x, rest) := by
    unfold take
    cases Bytes.split? n s with
    | none => exact ⟨nofun, nofun⟩
    | some p => simp
  rw [hsplit, Bytes.split?_eq_some_iff]
  constructor
  · rintro ⟨hn, rfl⟩
    exact ⟨x, ⟨hn, rfl⟩, rfl⟩
  · rintro ⟨_, ⟨hn, rfl⟩, rfl⟩
    exact ⟨hn, rfl⟩

theorem reads_number (width : Nat) (part : Part) :
    Reads (number width part) fun bytes n => n < 256 ^ width ∧ bytes = Bytes.ofNat width n := by
  refine ((reads_take width part).map Bytes.toNat).congr ?_
  intro bytes n
  constructor
  · rintro ⟨bs, ⟨rfl, rfl⟩, rfl⟩
    exact ⟨Bytes.toNat_lt _, (Bytes.ofNat_toNat _).symm⟩
  · rintro ⟨hn, rfl⟩
    exact ⟨_, ⟨Bytes.length_ofNat width n, rfl⟩, (Bytes.toNat_ofNat_of_lt hn).symm⟩

theorem reads_block (lengthPart part : Part) : Reads (block lengthPart part) IsBlock := by
  refine ((reads_number 4 lengthPart).bind fun n => reads_take n part).congr ?_
  intro bytes content
  constructor
  · rintro ⟨_, _, _, ⟨hn, rfl⟩, ⟨rfl, rfl⟩, rfl⟩
    exact ⟨hn, rfl⟩
  · rintro ⟨hn, rfl⟩
    exact ⟨content.length, _, content, ⟨hn, rfl⟩, ⟨rfl, rfl⟩, rfl⟩

theorem reads_textBlock (lengthPart part : Part) (fault : Utf8.Fault → Fault) :
    Reads (textBlock lengthPart part fault) fun bytes s => IsBlock bytes (Utf8.encode s) := by
  intro s t rest
  rw [textBlock, bind_eq_ok_iff]
  constructor
  · rintro ⟨⟨content, s'⟩, hc, ht⟩
    obtain ⟨bytes, hbytes, rfl⟩ := (reads_block _ _ _ _ _).1 hc
    cases hd : Utf8.decode content with
    | error f => simp [hd] at ht
    | ok u =>
        obtain rfl := Utf8.decode_eq_ok_iff.1 hd
        simp only [hd, Except.ok.injEq, Prod.mk.injEq] at ht
        obtain ⟨rfl, rfl⟩ := ht
        exact ⟨bytes, hbytes, rfl⟩
  · rintro ⟨bytes, hbytes, rfl⟩
    refine ⟨(Utf8.encode t, rest), (reads_block _ _ _ _ _).2 ⟨bytes, hbytes, rfl⟩, ?_⟩
    simp only [Utf8.decode_encode]

/-! ## Values and cells -/

/-- A number that is read into a type with as many values as there are such numbers. -/
theorem reads_fixed {β : Type} (width : Nat) (of : Nat → β) (code : β → Nat)
    (hcode : ∀ v, code v < 256 ^ width) (hof : ∀ v, of (code v) = v)
    (hinj : ∀ n, n < 256 ^ width → code (of n) = n) (part : Part) :
    Reads (fun s => number width part s >>= fun p => .ok (of p.1, p.2))
      fun bytes v => bytes = Bytes.ofNat width (code v) := by
  refine ((reads_number width part).map of).congr ?_
  intro bytes v
  constructor
  · rintro ⟨n, ⟨hn, rfl⟩, rfl⟩
    rw [hinj n hn]
  · rintro rfl
    exact ⟨code v, ⟨hcode v, rfl⟩, (hof v).symm⟩

theorem reads_value (blame : Utf8.Fault → Fault) (k : Kind) :
    Reads (value blame k) (IsValue k) := by
  cases k with
  | bool =>
      refine ((reads_number 1 .values).map fun n => n != 0).congr ?_
      intro bytes v
      have htrue : ∀ b : UInt8, (b.toNat != 0) = true ↔ b ≠ 0 := by
        intro b
        rw [bne_iff_ne, ne_eq, ne_eq, ← UInt8.toNat_inj]
        rfl
      constructor
      · rintro ⟨n, ⟨hn, rfl⟩, rfl⟩
        have hb : (UInt8.ofNat n).toNat = n := Nat.mod_eq_of_lt hn
        refine ⟨UInt8.ofNat n, rfl, ?_⟩
        rw [← htrue, hb]
      · rintro ⟨b, rfl, hv⟩
        refine ⟨b.toNat, ⟨b.toNat_lt, ?_⟩, ?_⟩
        · rw [Bytes.ofNat, Bytes.ofNat, UInt8.ofNat_toNat]
        · rw [Bool.eq_iff_iff, hv, htrue]
  | int8 =>
      refine reads_fixed 1 (fun n => (UInt8.ofNat n).toInt8) (fun v : Int8 => v.toUInt8.toNat)
        (fun v => v.toUInt8.toNat_lt) (fun v => ?_) (fun n hn => ?_) _
      · rw [UInt8.ofNat_toNat, Int8.toInt8_toUInt8]
      · exact Nat.mod_eq_of_lt hn
  | int16 =>
      refine reads_fixed 2 (fun n => (UInt16.ofNat n).toInt16) (fun v : Int16 => v.toUInt16.toNat)
        (fun v => v.toUInt16.toNat_lt) (fun v => ?_) (fun n hn => ?_) _
      · rw [UInt16.ofNat_toNat, Int16.toInt16_toUInt16]
      · exact Nat.mod_eq_of_lt hn
  | int32 =>
      refine reads_fixed 4 (fun n => (UInt32.ofNat n).toInt32) (fun v : Int32 => v.toUInt32.toNat)
        (fun v => v.toUInt32.toNat_lt) (fun v => ?_) (fun n hn => ?_) _
      · rw [UInt32.ofNat_toNat, Int32.toInt32_toUInt32]
      · exact Nat.mod_eq_of_lt hn
  | int64 =>
      refine reads_fixed 8 (fun n => (UInt64.ofNat n).toInt64) (fun v : Int64 => v.toUInt64.toNat)
        (fun v => v.toUInt64.toNat_lt) (fun v => ?_) (fun n hn => ?_) _
      · rw [UInt64.ofNat_toNat, Int64.toInt64_toUInt64]
      · exact Nat.mod_eq_of_lt hn
  | float64 =>
      refine reads_fixed 8 UInt64.ofNat UInt64.toNat (fun v => v.toNat_lt) (fun v => ?_)
        (fun n hn => ?_) _
      · exact UInt64.ofNat_toNat
      · exact Nat.mod_eq_of_lt hn
  | utf8 => exact reads_textBlock _ _ _
  | binary => exact reads_block _ _

/-- The cells of some values, given for each whether it is absent. -/
theorem reads_cells (column : String) (k : Kind) (row : Nat) (absent : List Bool) :
    Reads (cells column k row absent) fun bytes cs => ∃ values,
      (Series (IsValue k) bytes values ∧ values.length = absent.length)
        ∧ cs = List.zipWith (fun a v => if a then none else some v) absent values := by
  induction absent generalizing row with
  | nil =>
      refine (reads_pure []).congr ?_
      intro bytes cs
      constructor
      · rintro ⟨hbytes, rfl⟩
        exact ⟨[], series_zero.2 ⟨hbytes, rfl⟩, rfl⟩
      · rintro ⟨values, h, rfl⟩
        exact ⟨(series_zero.1 h).1, rfl⟩
  | cons a absent ih =>
      refine ((reads_value _ k).bind fun v =>
        (ih (row + 1)).map fun cs => (if a then none else some v) :: cs).congr ?_
      intro bytes cs
      constructor
      · rintro ⟨v, left, right, hv, ⟨_, ⟨values, h, rfl⟩, rfl⟩, hbytes⟩
        exact ⟨v :: values, series_succ.2 ⟨v, left, right, hv, ⟨values, h, rfl⟩, hbytes⟩, rfl⟩
      · rintro ⟨_, h, rfl⟩
        obtain ⟨v, left, right, hv, ⟨values, hrest, rfl⟩, hbytes⟩ := series_succ.1 h
        exact ⟨v, left, right, hv, ⟨_, ⟨values, hrest, rfl⟩, rfl⟩, hbytes⟩

/-- A bitmap that covers the rows says of each of them what its bit says. -/
theorem zipWith_unpack {α : Type} {bitmap : List UInt8} {values : List α}
    (h : values.length ≤ 8 * bitmap.length) :
    List.zipWith (fun a v => if a then none else some v)
      ((Bytes.unpack bitmap).take values.length) values = cellsOf bitmap values := by
  refine List.ext_getElem? fun i => ?_
  rw [cellsOf, List.getElem?_mapIdx, List.getElem?_zipWith]
  rcases Nat.lt_or_ge i values.length with hi | hi
  · rw [List.getElem?_take_of_lt hi, Bytes.getElem?_unpack (by omega),
      List.getElem?_eq_getElem hi]
    rfl
  · rw [List.getElem?_eq_none hi]
    cases ((Bytes.unpack bitmap).take values.length)[i]? <;> rfl

/-! ## Columns -/

theorem reads_column (rows : Nat) : Reads (column rows) (IsColumn rows) := by
  intro s c rest
  simp only [column, bind_eq_ok_iff, Prod.exists]
  constructor
  · rintro ⟨name, s₁, hs₁, tag, s₂, hs₂, h⟩
    obtain ⟨nameBytes, hname, rfl⟩ := (reads_textBlock _ _ _ _ _ _).1 hs₁
    obtain ⟨_, ⟨-, rfl⟩, rfl⟩ := (reads_number _ _ _ _ _).1 hs₂
    cases hk : Kind.ofTag? tag with
    | none =>
        simp only [hk] at h
        cases h
    | some k =>
        simp only [hk, bind_eq_ok_iff, Prod.exists] at h
        obtain ⟨bitmap, s₃, hs₃, h⟩ := h
        obtain ⟨bitmapBytes, hbitmap, rfl⟩ := (reads_block _ _ _ _ _).1 hs₃
        split at h
        · cases h
        · rename_i hcovers
          rw [Bytes.sizeOfBits, Nat.not_lt] at hcovers
          obtain ⟨⟨cs, s₄⟩, hs₄, hdone⟩ := bind_eq_ok_iff.1 h
          obtain ⟨valueBytes, ⟨values, ⟨hvalues, hlen⟩, rfl⟩, rfl⟩ :=
            (reads_cells _ _ _ _ _ _ _).1 hs₄
          obtain ⟨rfl, rfl⟩ := Prod.mk.inj (Except.ok.inj hdone)
          -- as many values as rows, since the bitmap covers the rows
          have hrows : values.length = rows := by
            rw [hlen, List.length_take, Bytes.length_unpack]
            omega
          subst hrows
          rw [zipWith_unpack (by omega), ← Kind.tag_of_ofTag? hk]
          refine ⟨_, .column hname hbitmap hcovers hvalues rfl, ?_⟩
          simp [Bytes.ofNat]
  · rintro ⟨bytes, hcolumn, rfl⟩
    cases hcolumn with
    | @column name k bitmap nameBytes bitmapBytes valueBytes values hname hbitmap hcovers hvalues
        hlen =>
        subst hlen
        have htag : k.tag < 256 ^ 1 := by cases k <;> decide
        have hcells : cells name k 0 ((Bytes.unpack bitmap).take values.length) (valueBytes ++ rest)
            = .ok (cellsOf bitmap values, rest) := by
          refine (reads_cells _ _ _ _ _ _ _).2 ⟨valueBytes, ⟨values, ⟨hvalues, ?_⟩, ?_⟩, rfl⟩
          · rw [List.length_take, Bytes.length_unpack]
            omega
          · rw [zipWith_unpack (by omega)]
        refine ⟨name, UInt8.ofNat k.tag :: bitmapBytes ++ valueBytes ++ rest,
          (reads_textBlock _ _ _ _ _ _).2 ⟨nameBytes, hname, by simp⟩, k.tag,
          bitmapBytes ++ (valueBytes ++ rest),
          (reads_number _ _ _ _ _).2 ⟨_, ⟨htag, rfl⟩, by simp [Bytes.ofNat]⟩, ?_⟩
        simp only [Kind.ofTag?_tag, bind_eq_ok_iff, Prod.exists]
        refine ⟨bitmap, valueBytes ++ rest,
          (reads_block _ _ _ _ _).2 ⟨bitmapBytes, hbitmap, rfl⟩, ?_⟩
        rw [if_neg (by rw [Bytes.sizeOfBits]; omega), hcells]
        rfl

theorem reads_columns (rows n : Nat) :
    Reads (columns rows n) fun bytes cs => Series (IsColumn rows) bytes cs ∧ cs.length = n := by
  induction n with
  | zero => exact (reads_pure []).congr fun _ _ => series_zero.symm
  | succ n ih =>
      exact ((reads_column rows).bind fun c => ih.map fun cs => c :: cs).congr
        fun _ _ => series_succ.symm

/-! ## Whole inputs -/

/-- The pieces of a header: the magic bytes, the version and the two counts. -/
structure Pieces (start version width rows : List UInt8) : Prop where
  start : start.length = 4
  version : version.length = 1
  width : width.length = 4
  rows : rows.length = 4

theorem exists_pieces {s : List UInt8} (h : headerSize ≤ s.length) : ∃ start v width rows rest,
    Pieces start v width rows ∧ s = start ++ (v ++ (width ++ (rows ++ rest))) := by
  rw [headerSize] at h
  refine ⟨s.take 4, (s.drop 4).take 1, (s.drop 5).take 4, (s.drop 9).take 4, s.drop 13, ?_, ?_⟩
  · constructor <;> simp <;> omega
  · have h13 : s.drop 13 = (s.drop 9).drop 4 := by rw [List.drop_drop]
    have h9 : s.drop 9 = (s.drop 5).drop 4 := by rw [List.drop_drop]
    have h5 : s.drop 5 = (s.drop 4).drop 1 := by rw [List.drop_drop]
    rw [h13, List.take_append_drop, h9, List.take_append_drop, h5, List.take_append_drop,
      List.take_append_drop]

theorem header_of_pieces {start v width rows : List UInt8} (h : Pieces start v width rows)
    (rest : List UInt8) : header (start ++ (v ++ (width ++ (rows ++ rest)))) =
      if start ≠ magic then .error .badMagic
      else if Bytes.toNat v ≠ version then .error (.version (Bytes.toNat v))
      else .ok ((Bytes.toNat width, Bytes.toNat rows), rest) := by
  have hall : take headerSize .header (start ++ (v ++ (width ++ (rows ++ rest)))) =
      .ok (start ++ (v ++ (width ++ rows)), rest) := by
    refine (reads_take _ _ _ _ _).2 ⟨_, ⟨?_, rfl⟩, by simp only [List.append_assoc]⟩
    simp only [List.length_append, h.start, h.version, h.width, h.rows, headerSize]
  have hstart : (start ++ (v ++ (width ++ rows))).take 4 = start := List.take_left' h.start
  have h4 : (start ++ (v ++ (width ++ rows))).drop 4 = v ++ (width ++ rows) :=
    List.drop_left' h.start
  have h5 : (start ++ (v ++ (width ++ rows))).drop 5 = width ++ rows := by
    rw [← List.drop_drop (i := 1) (j := 4), h4, List.drop_left' h.version]
  have h9 : (start ++ (v ++ (width ++ rows))).drop 9 = rows := by
    rw [← List.drop_drop (i := 4) (j := 5), h5, List.drop_left' h.width]
  rw [header]
  dsimp only
  rw [hall]
  change (if List.take 4 _ ≠ magic then _ else if Bytes.toNat _ ≠ version then _ else _) = _
  rw [hstart, h4, h5, h9, List.take_left' h.version, List.take_left' h.width]

theorem reads_header : Reads header fun bytes counts => counts.1 < 2 ^ 32 ∧ counts.2 < 2 ^ 32
    ∧ bytes = [0x44, 0x42, 0x52, 0x53, 1] ++ Bytes.ofNat 4 counts.1 ++ Bytes.ofNat 4 counts.2 := by
  intro s counts rest
  constructor
  · intro h
    have hlong : headerSize ≤ s.length := by
      obtain ⟨p, hp, -⟩ := bind_eq_ok_iff.1 h
      obtain ⟨front, ⟨hlen, rfl⟩, rfl⟩ := (reads_take _ _ _ _ _).1 hp
      rw [List.length_append]
      omega
    obtain ⟨start, v, width, rows, rest', hp, rfl⟩ := exists_pieces hlong
    rw [header_of_pieces hp] at h
    split at h
    · cases h
    · rename_i hmagic
      split at h
      · cases h
      · rename_i hversion
        rw [Decidable.not_not] at hmagic hversion
        obtain ⟨rfl, rfl⟩ := Prod.mk.inj (Except.ok.inj h)
        have hv := Bytes.ofNat_toNat_of_length hp.version
        rw [hversion] at hv
        refine ⟨_, ⟨Bytes.toNat_lt_of_length hp.width, Bytes.toNat_lt_of_length hp.rows, rfl⟩, ?_⟩
        rw [Bytes.ofNat_toNat_of_length hp.width, Bytes.ofNat_toNat_of_length hp.rows, hmagic, ← hv]
        simp [magic, version, Bytes.ofNat]
  · rintro ⟨_, ⟨hwidth, hrows, rfl⟩, rfl⟩
    obtain ⟨width, rows⟩ := counts
    have hp : Pieces magic [1] (Bytes.ofNat 4 width) (Bytes.ofNat 4 rows) :=
      ⟨rfl, rfl, Bytes.length_ofNat 4 width, Bytes.length_ofNat 4 rows⟩
    have h := header_of_pieces hp rest
    rw [Bytes.toNat_ofNat_of_lt hwidth, Bytes.toNat_ofNat_of_lt hrows] at h
    simpa [magic, version, Bytes.toNat] using h

theorem IsColumn.length_nullable {rows : Nat} {bytes : List UInt8} {c : Column}
    (h : IsColumn rows bytes c) : c.cells.length = rows ∧ c.nullable = true := by
  cases h with
  | column _ _ _ _ hlen => exact ⟨List.length_mapIdx.trans hlen, rfl⟩

/-- The columns of a row-set form a batch. -/
theorem IsRowSet.wellFormed {bytes : List UInt8} {b : Batch} (h : IsRowSet bytes b) :
    b.WellFormed := by
  cases h with
  | rowSet _ _ hcolumns =>
      refine hcolumns.forall_mem fun bytes c hc => ?_
      obtain ⟨hlen, hnull⟩ := hc.length_nullable
      exact ⟨hlen, by rw [Column.nullsAllowed, hnull]; rfl⟩

/-- **A byte string is accepted exactly if it is a row-set**, and what is read is its batch. -/
theorem decode_eq_ok_iff {bytes : List UInt8} {b : Batch} :
    decode bytes = .ok b ↔ IsRowSet bytes b := by
  simp only [decode, bind_eq_ok_iff, Prod.exists]
  constructor
  · rintro ⟨width, rows, s₁, hs₁, cs, s₂, hs₂, h⟩
    obtain ⟨front, ⟨hwidth, hrows, rfl⟩, rfl⟩ := (reads_header _ _ _).1 hs₁
    obtain ⟨columnBytes, ⟨hcolumns, rfl⟩, rfl⟩ := (reads_columns _ _ _ _ _).1 hs₂
    split at h
    · cases h
    · rename_i hend
      rw [Decidable.not_not] at hend
      subst hend
      split at h
      · rename_i b' hb
        obtain rfl := Except.ok.inj h
        obtain ⟨rfl, -⟩ := Batch.ofColumns?_eq_some_iff.1 hb
        rw [List.append_nil]
        exact .rowSet hwidth hrows hcolumns
      · cases h
  · intro h
    have hformed := h.wellFormed
    cases h with
    | @rowSet columns rows bytes hwidth hrows hcolumns =>
        refine ⟨columns.length, rows, bytes, (reads_header _ _ _).2 ⟨_, ⟨hwidth, hrows, rfl⟩, rfl⟩,
          columns, [], (reads_columns _ _ _ _ _).2 ⟨bytes, ⟨hcolumns, rfl⟩, ?_⟩, ?_⟩
        · rw [List.append_nil]
        · simp only [ne_eq, not_true_eq_false, if_false]
          rw [Batch.ofColumns?_eq_some_iff.2 ⟨rfl, hformed⟩]

end ResultChunks.RowSet
