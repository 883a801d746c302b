import ResultChunks.Proofs.RowSet.Grammar
import ResultChunks.RowSet.Encode

/-!
# Batches survive being written

A writer is shown to write bytes of the grammar, and to succeed exactly if what it writes fits. With
the grammar in between, nothing has to be said here about the readers: what is in the grammar is
read back.

Two things are lost. That a column allows no absent cells is not written down, so all columns come
back as ones that do. And what the slots of absent cells hold is written, but not read.
-/

namespace ResultChunks.RowSet

/-! ## What can be written -/

/-- The bytes that a text or a value of bytes takes. Other values have no length of their own. -/
def sizeOfValue : (t : ColumnType) → t.Cell → Nat
  | .utf8, (s : String) => (Utf8.encode s).length
  | .binary, (content : List UInt8) => content.length
  | _, _ => 0

/-- The column is of one of the eight types, and its name and values are not too long. -/
structure Fits (c : Column) : Prop where
  type : ∃ k : Kind, k.type = c.type
  name : (Utf8.encode c.name).length < 2 ^ 32
  values : ∀ v, some v ∈ c.cells → sizeOfValue c.type v < 2 ^ 32

/-- The batch has a row-set. The bitmaps of so many rows are never too long. -/
structure Encodable (b : Batch) : Prop where
  width : b.columns.length < 2 ^ 32
  rows : b.rows < 2 ^ 32
  columns : ∀ c ∈ b.columns, Fits c

instance (c : Column) : Decidable (Fits c) :=
  decidable_of_iff ((Kind.ofType? c.type).isSome = true ∧ (Utf8.encode c.name).length < 2 ^ 32
      ∧ ∀ cell ∈ c.cells, ∀ v ∈ cell, sizeOfValue c.type v < 2 ^ 32) <| by
    constructor
    · rintro ⟨hk, hn, hv⟩
      obtain ⟨k, -⟩ := Option.isSome_iff_exists.1 hk
      exact ⟨⟨k.1, k.2⟩, hn, fun v hmem => hv _ hmem v rfl⟩
    · rintro ⟨⟨k, hk⟩, hn, hv⟩
      refine ⟨by rw [← hk, Kind.ofType?_type]; rfl, hn, ?_⟩
      intro cell hmem v hcell
      exact hv v (hcell ▸ hmem)

instance (b : Batch) : Decidable (Encodable b) :=
  decidable_of_iff (b.columns.length < 2 ^ 32 ∧ b.rows < 2 ^ 32 ∧ ∀ c ∈ b.columns, Fits c)
    ⟨fun ⟨hw, hr, hc⟩ => ⟨hw, hr, hc⟩, fun h => ⟨h.width, h.rows, h.columns⟩⟩

/-- The column with absent cells allowed. -/
def asNullable (c : Column) : Column := { c with nullable := true }

/-! ## Writers and the grammar -/

/-- A writer succeeds if its parts do. -/
theorem exists_bind_ok_iff {α β : Type} {x : Except Fault α} {f : α → Except Fault β} {q : Prop}
    (hf : ∀ a, (∃ b, f a = .ok b) ↔ q) : (∃ b, (x >>= f) = .ok b) ↔ (∃ a, x = .ok a) ∧ q := by
  constructor
  · rintro ⟨b, h⟩
    obtain ⟨a, ha, hb⟩ := bind_eq_ok_iff.1 h
    exact ⟨⟨a, ha⟩, (hf a).1 ⟨b, hb⟩⟩
  · rintro ⟨⟨a, ha⟩, hq⟩
    obtain ⟨b, hb⟩ := (hf a).2 hq
    exact ⟨b, bind_eq_ok_iff.2 ⟨a, ha, hb⟩⟩

theorem exists_ok_iff {α : Type} (a : α) : (∃ b, (.ok a : Except Fault α) = .ok b) ↔ True :=
  ⟨fun _ => trivial, fun _ => ⟨a, rfl⟩⟩

theorem writeCount_eq_ok_iff {what : Quantity} {n : Nat} {bytes : List UInt8} :
    writeCount what n = .ok bytes ↔ n < 2 ^ 32 ∧ bytes = Bytes.ofNat 4 n := by
  unfold writeCount
  split
  · rename_i h
    constructor
    · intro heq
      exact ⟨h, (Except.ok.inj heq).symm⟩
    · rintro ⟨-, rfl⟩
      rfl
  · rename_i h
    exact ⟨nofun, fun hn => absurd hn.1 h⟩

theorem writeBlock_eq_ok_iff {what : Quantity} {content bytes : List UInt8} :
    writeBlock what content = .ok bytes ↔ IsBlock bytes content := by
  rw [writeBlock, bind_eq_ok_iff]
  constructor
  · rintro ⟨_, hn, h⟩
    obtain ⟨hlt, rfl⟩ := writeCount_eq_ok_iff.1 hn
    exact ⟨hlt, (Except.ok.inj h).symm⟩
  · rintro ⟨hlt, rfl⟩
    exact ⟨_, writeCount_eq_ok_iff.2 ⟨hlt, rfl⟩, rfl⟩

theorem writeBlock_ok_iff {what : Quantity} {content : List UInt8} :
    (∃ bytes, writeBlock what content = .ok bytes) ↔ content.length < 2 ^ 32 := by
  constructor
  · rintro ⟨bytes, h⟩
    exact (writeBlock_eq_ok_iff.1 h).1
  · intro h
    exact ⟨_, writeBlock_eq_ok_iff.2 ⟨h, rfl⟩⟩

theorem writeValue_sound {k : Kind} {v : k.type.Cell} {bytes : List UInt8}
    (h : writeValue k v = .ok bytes) : IsValue k bytes v := by
  cases k with
  | bool =>
      refine ⟨UInt8.ofNat (Bool.toNat v), (Except.ok.inj h).symm, ?_⟩
      cases v <;> decide
  | int8 | int16 | int32 | int64 | float64 => exact (Except.ok.inj h).symm
  | utf8 | binary => exact writeBlock_eq_ok_iff.1 h

theorem writeValue_ok_iff {k : Kind} {v : k.type.Cell} :
    (∃ bytes, writeValue k v = .ok bytes) ↔ sizeOfValue k.type v < 2 ^ 32 := by
  cases k with
  | bool | int8 | int16 | int32 | int64 | float64 =>
      exact ⟨fun _ => Nat.two_pow_pos 32, fun _ => ⟨_, rfl⟩⟩
  | utf8 | binary => exact writeBlock_ok_iff

theorem sizeOfValue_absent (slot : (k : Kind) → k.type.Cell) (k : Kind) :
    sizeOfValue k.type (absentValue slot k) = 0 := by
  cases k <;> rfl

section

variable {k : Kind} {slots : Slots}

/-- The values that stand for some cells from a row on. -/
def written (k : Kind) (slots : Slots) (row : Nat) (cs : List (Option k.type.Cell)) :
    List k.type.Cell :=
  cs.mapIdx fun i c => c.getD (absentValue (slots (row + i)) k)

theorem written_cons (row : Nat) (c : Option k.type.Cell) (cs : List (Option k.type.Cell)) :
    written k slots row (c :: cs) =
      c.getD (absentValue (slots row) k) :: written k slots (row + 1) cs := by
  simp [written, List.mapIdx_cons, Nat.add_assoc, Nat.add_comm 1]

theorem writeCells_sound {row : Nat} {cs : List (Option k.type.Cell)} {bytes : List UInt8}
    (h : writeCells k slots row cs = .ok bytes) :
    Series (IsValue k) bytes (written k slots row cs) := by
  induction cs generalizing row bytes with
  | nil =>
      obtain rfl := Except.ok.inj h
      exact .nil
  | cons c cs ih =>
      obtain ⟨v, hv, h⟩ := bind_eq_ok_iff.1 h
      obtain ⟨vs, hvs, h⟩ := bind_eq_ok_iff.1 h
      obtain rfl := Except.ok.inj h
      rw [written_cons]
      exact .cons (writeValue_sound hv) (ih hvs)

theorem writeCells_ok_iff {row : Nat} {cs : List (Option k.type.Cell)} :
    (∃ bytes, writeCells k slots row cs = .ok bytes) ↔
      ∀ v, some v ∈ cs → sizeOfValue k.type v < 2 ^ 32 := by
  induction cs generalizing row with
  | nil => exact ⟨fun _ => nofun, fun _ => ⟨_, rfl⟩⟩
  | cons c cs ih =>
      have hone : (∃ bytes, writeValue k (c.getD (absentValue (slots row) k)) = .ok bytes) ↔
          ∀ v, c = some v → sizeOfValue k.type v < 2 ^ 32 := by
        rw [writeValue_ok_iff]
        cases c with
        | none =>
            rw [Option.getD_none, sizeOfValue_absent]
            exact ⟨fun _ => nofun, fun _ => Nat.two_pow_pos 32⟩
        | some v =>
            constructor
            · intro h w hw
              obtain rfl := Option.some.inj hw
              exact h
            · intro h
              exact h v rfl
      refine (exists_bind_ok_iff fun _ => exists_bind_ok_iff fun _ => exists_ok_iff _).trans ?_
      rw [hone, ih, and_true]
      constructor
      · rintro ⟨hc, hcs⟩ v hv
        rcases List.mem_cons.1 hv with hv | hv
        · exact hc v hv.symm
        · exact hcs v hv
      · intro h
        exact ⟨fun v hv => h v (hv ▸ List.mem_cons_self),
          fun v hv => h v (List.mem_cons_of_mem c hv)⟩

/-- The bitmap says which cells are absent, so that the values give back the cells. -/
theorem cellsOf_bitmapOf (slots : Slots) (cs : List (Option k.type.Cell)) :
    cellsOf (bitmapOf cs) (written k slots 0 cs) = cs := by
  refine List.ext_getElem? fun i => ?_
  rw [cellsOf, List.getElem?_mapIdx, written, List.getElem?_mapIdx, bitmapOf, Bytes.bit_pack,
    List.getD_eq_getElem?_getD, List.getElem?_map]
  cases cs[i]? with
  | none => rfl
  | some c => cases c <;> rfl

theorem length_bitmapOf {α : Type} (cs : List (Option α)) :
    (bitmapOf cs).length = (cs.length + 7) / 8 := by
  rw [bitmapOf, Bytes.length_pack, List.length_map, Bytes.sizeOfBits]

theorem writeKind_sound {name : String} {cs : List (Option k.type.Cell)} {bytes : List UInt8}
    (h : writeKind name k slots cs = .ok bytes) :
    IsColumn cs.length bytes ⟨name, k.type, true, cs⟩ := by
  obtain ⟨nameBytes, hname, h⟩ := bind_eq_ok_iff.1 h
  obtain ⟨bitmapBytes, hbitmap, h⟩ := bind_eq_ok_iff.1 h
  obtain ⟨valueBytes, hvalues, h⟩ := bind_eq_ok_iff.1 h
  obtain rfl := Except.ok.inj h
  have hcolumn := IsColumn.column (writeBlock_eq_ok_iff.1 hname) (writeBlock_eq_ok_iff.1 hbitmap)
    (Nat.le_of_eq (length_bitmapOf cs).symm) (writeCells_sound hvalues) List.length_mapIdx
  rw [cellsOf_bitmapOf] at hcolumn
  simpa [Bytes.ofNat] using hcolumn

theorem writeKind_ok_iff {name : String} {cs : List (Option k.type.Cell)}
    (hrows : cs.length < 2 ^ 32) : (∃ bytes, writeKind name k slots cs = .ok bytes) ↔
      (Utf8.encode name).length < 2 ^ 32 ∧ ∀ v, some v ∈ cs → sizeOfValue k.type v < 2 ^ 32 := by
  have hbitmap : (bitmapOf cs).length < 2 ^ 32 := by
    rw [length_bitmapOf]
    omega
  refine (exists_bind_ok_iff fun _ => exists_bind_ok_iff fun _ => exists_bind_ok_iff fun _ =>
    exists_ok_iff _).trans ?_
  rw [writeBlock_ok_iff, writeBlock_ok_iff, writeCells_ok_iff]
  exact ⟨fun ⟨hn, _, hv, _⟩ => ⟨hn, hv⟩, fun ⟨hn, hv⟩ => ⟨hn, hbitmap, hv, trivial⟩⟩

end

/-! ## Columns and batches -/

theorem writeColumn_of_kind (slots : Slots) (name : String) (k : Kind) (nullable : Bool)
    (cs : List (Option k.type.Cell)) :
    writeColumn slots ⟨name, k.type, nullable, cs⟩ = writeKind name k slots cs := by
  cases k <;> rfl

theorem writeColumn_of_no_kind {slots : Slots} {c : Column} (h : ¬ ∃ k : Kind, k.type = c.type) :
    writeColumn slots c = .error (.unsupportedType c.type) := by
  have hnone : Kind.ofType? c.type = none := by
    cases hk : Kind.ofType? c.type with
    | none => rfl
    | some k => exact absurd ⟨k.1, k.2⟩ h
  rw [writeColumn, hnone]

theorem writeColumn_sound {slots : Slots} {c : Column} {bytes : List UInt8}
    (h : writeColumn slots c = .ok bytes) : IsColumn c.cells.length bytes (asNullable c) := by
  by_cases hkind : ∃ k : Kind, k.type = c.type
  · obtain ⟨name, type, nullable, cs⟩ := c
    obtain ⟨k, rfl⟩ := hkind
    rw [writeColumn_of_kind] at h
    exact writeKind_sound h
  · rw [writeColumn_of_no_kind hkind] at h
    cases h

theorem writeColumn_ok_iff {slots : Slots} {c : Column} (hrows : c.cells.length < 2 ^ 32) :
    (∃ bytes, writeColumn slots c = .ok bytes) ↔ Fits c := by
  by_cases hkind : ∃ k : Kind, k.type = c.type
  · obtain ⟨name, type, nullable, cs⟩ := c
    obtain ⟨k, rfl⟩ := hkind
    rw [writeColumn_of_kind, writeKind_ok_iff hrows]
    exact ⟨fun ⟨hn, hv⟩ => ⟨⟨k, rfl⟩, hn, hv⟩, fun h => ⟨h.name, h.values⟩⟩
  · rw [writeColumn_of_no_kind hkind]
    exact ⟨nofun, fun h => absurd h.type hkind⟩

variable {slots : Nat → Slots}

theorem writeColumns_sound {i rows : Nat} {cs : List Column} {bytes : List UInt8}
    (hlen : ∀ c ∈ cs, c.cells.length = rows) (h : writeColumns slots i cs = .ok bytes) :
    Series (IsColumn rows) bytes (cs.map asNullable) := by
  induction cs generalizing i bytes with
  | nil =>
      obtain rfl := Except.ok.inj h
      exact .nil
  | cons c cs ih =>
      obtain ⟨v, hv, h⟩ := bind_eq_ok_iff.1 h
      obtain ⟨vs, hvs, h⟩ := bind_eq_ok_iff.1 h
      obtain rfl := Except.ok.inj h
      have hc := writeColumn_sound hv
      rw [hlen c List.mem_cons_self] at hc
      exact .cons hc (ih (fun d hd => hlen d (List.mem_cons_of_mem c hd)) hvs)

theorem writeColumns_ok_iff {i : Nat} {cs : List Column}
    (hrows : ∀ c ∈ cs, c.cells.length < 2 ^ 32) :
    (∃ bytes, writeColumns slots i cs = .ok bytes) ↔ ∀ c ∈ cs, Fits c := by
  induction cs generalizing i with
  | nil => exact ⟨fun _ => nofun, fun _ => ⟨_, rfl⟩⟩
  | cons c cs ih =>
      refine (exists_bind_ok_iff fun _ => exists_bind_ok_iff fun _ => exists_ok_iff _).trans ?_
      rw [writeColumn_ok_iff (hrows c List.mem_cons_self),
        ih fun d hd => hrows d (List.mem_cons_of_mem c hd), and_true, List.forall_mem_cons]

/-- **What is written for a batch is a row-set of it.** -/
theorem encodeOver_sound {b : Batch} {bytes : List UInt8} (hb : b.WellFormed)
    (h : encodeOver slots b = .ok bytes) :
    IsRowSet bytes ⟨b.columns.map asNullable, b.rows⟩ := by
  obtain ⟨width, hwidth, h⟩ := bind_eq_ok_iff.1 h
  obtain ⟨rows, hrows, h⟩ := bind_eq_ok_iff.1 h
  obtain ⟨columns, hcolumns, h⟩ := bind_eq_ok_iff.1 h
  obtain ⟨hltwidth, rfl⟩ := writeCount_eq_ok_iff.1 hwidth
  obtain ⟨hltrows, rfl⟩ := writeCount_eq_ok_iff.1 hrows
  obtain rfl := Except.ok.inj h
  have hseries := writeColumns_sound (fun c hc => (hb c hc).1) hcolumns
  have hset := IsRowSet.rowSet (by rw [List.length_map]; exact hltwidth) hltrows hseries
  rw [List.length_map] at hset
  simpa [magic, version, Bytes.ofNat] using hset

/-- **A batch is written exactly if it fits.** -/
theorem encodeOver_ok_iff {b : Batch} (hb : b.WellFormed) :
    (∃ bytes, encodeOver slots b = .ok bytes) ↔ Encodable b := by
  have hcount : ∀ {what : Quantity} {n : Nat},
      (∃ bytes, writeCount what n = .ok bytes) ↔ n < 2 ^ 32 := by
    intro what n
    exact ⟨fun ⟨_, h⟩ => (writeCount_eq_ok_iff.1 h).1,
      fun h => ⟨_, writeCount_eq_ok_iff.2 ⟨h, rfl⟩⟩⟩
  refine (exists_bind_ok_iff fun _ => exists_bind_ok_iff fun _ => exists_bind_ok_iff fun _ =>
    exists_ok_iff _).trans ?_
  rw [hcount, hcount, and_true]
  have hcolumns : b.rows < 2 ^ 32 → ((∃ bytes, writeColumns slots 0 b.columns = .ok bytes) ↔
      ∀ c ∈ b.columns, Fits c) := by
    intro hrows
    exact writeColumns_ok_iff fun c hc => (hb c hc).1 ▸ hrows
  constructor
  · rintro ⟨hwidth, hrows, hcs⟩
    exact ⟨hwidth, hrows, (hcolumns hrows).1 hcs⟩
  · intro h
    exact ⟨h.width, h.rows, (hcolumns h.rows).2 h.columns⟩

/-- **A batch that fits is read back as it was written**, whatever its columns hold where cells are
absent: with the same rows, names, types, absent cells and values, and all columns nullable. A batch
that does not fit is not written. -/
theorem round_trip (slots : Nat → Slots) {b : Batch} (hb : b.WellFormed) :
    (Encodable b → ∃ bytes, encodeOver slots b = .ok bytes
        ∧ decode bytes = .ok ⟨b.columns.map asNullable, b.rows⟩)
      ∧ (¬ Encodable b → ∃ fault, encodeOver slots b = .error fault) := by
  refine ⟨?_, ?_⟩
  · intro h
    obtain ⟨bytes, hbytes⟩ := (encodeOver_ok_iff hb).2 h
    exact ⟨bytes, hbytes, decode_eq_ok_iff.2 (encodeOver_sound hb hbytes)⟩
  · intro h
    cases hw : encodeOver slots b with
    | ok bytes => exact absurd ((encodeOver_ok_iff hb).1 ⟨bytes, hw⟩) h
    | error fault => exact ⟨fault, rfl⟩

namespace Sample

/-- Two columns of one name, one of which allows no absent cells. -/
def batch : Batch :=
  ⟨[⟨"γ", .utf8, true, [some "alpha", none, some "γ"]⟩,
    ⟨"γ", .int16, false, [some (-1 : Int16), some 0, some 300]⟩], 3⟩

/-- A column of a type that has no kind. -/
def dates : Batch := ⟨[⟨"d", .date32, true, [some (1 : Int32)]⟩], 1⟩

end Sample

theorem round_trip_sample :
    (∃ bytes, encode Sample.batch = .ok bytes
        ∧ decode bytes = .ok ⟨Sample.batch.columns.map asNullable, 3⟩)
      ∧ ∃ fault, encode Sample.dates = .error fault :=
  ⟨(round_trip _ (b := Sample.batch) (by decide)).1 (by decide +kernel),
    (round_trip _ (b := Sample.dates) (by decide)).2 (by decide +kernel)⟩

end ResultChunks.RowSet
