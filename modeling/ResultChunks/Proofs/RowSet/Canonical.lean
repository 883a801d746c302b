import ResultChunks.Proofs.RowSet.RoundTrip

/-!
# The canonical row-set of a batch

One batch has many row-sets, since a reader overlooks some of what it reads: bits of a bitmap past the
last row, which byte other than zero stands for true, and what the value of an absent cell is. In a
canonical row-set none of this is free. Bitmaps are no longer than needed and filled up with zeros, a
truth value is zero or one, and an absent cell has the placeholder of its kind.

Writing comes to the canonical row-set of a batch and to nothing else (`encode_eq_ok_iff`). So what is
read and written again is canonical, whatever it was before, and it has not grown.
-/

namespace ResultChunks.RowSet

/-! ## The canonical grammar -/

/-- The bytes of a value, with a truth value being zero or one. -/
def IsPlainValue (k : Kind) (bytes : List UInt8) (v : k.type.Cell) : Prop :=
  IsValue k bytes v ∧ (k = .bool → bytes = [0] ∨ bytes = [1])

/-- The canonical bytes of a column with a number of rows. -/
inductive IsCanonicalColumn (rows : Nat) : List UInt8 → Column → Prop where
  | column {name : String} {k : Kind} {bitmap nameBytes bitmapBytes valueBytes : List UInt8}
      {values : List k.type.Cell} :
      IsBlock nameBytes (Utf8.encode name) → IsBlock bitmapBytes bitmap →
      bitmap.length = (rows + 7) / 8 → (∀ row, rows ≤ row → Bytes.bit bitmap row = false) →
      Series (IsPlainValue k) valueBytes values → values.length = rows →
      (∀ row v, Bytes.bit bitmap row = true → values[row]? = some v → v = k.placeholder) →
      IsCanonicalColumn rows (nameBytes ++ UInt8.ofNat k.tag :: bitmapBytes ++ valueBytes)
        ⟨name, k.type, true, cellsOf bitmap values⟩

/-- The canonical bytes of a whole row-set. -/
inductive IsCanonicalRowSet : List UInt8 → Batch → Prop where
  | rowSet {columns : List Column} {rows : Nat} {bytes : List UInt8} :
      columns.length < 2 ^ 32 → rows < 2 ^ 32 → Series (IsCanonicalColumn rows) bytes columns →
      IsCanonicalRowSet ([0x44, 0x42, 0x52, 0x53, 1] ++ Bytes.ofNat 4 columns.length
        ++ Bytes.ofNat 4 rows ++ bytes) ⟨columns, rows⟩

/-- The bytes are the canonical row-set of some batch. -/
def IsCanonical (bytes : List UInt8) : Prop := ∃ b, IsCanonicalRowSet bytes b

theorem Series.imp {α : Type} {item item' : List UInt8 → α → Prop} {bytes : List UInt8} {xs : List α}
    (h : Series item bytes xs) (himp : ∀ bytes x, item bytes x → item' bytes x) :
    Series item' bytes xs := by
  induction h with
  | nil => exact .nil
  | cons hx _ ih => exact .cons (himp _ _ hx) ih

theorem IsCanonicalColumn.isColumn {rows : Nat} {bytes : List UInt8} {c : Column}
    (h : IsCanonicalColumn rows bytes c) : IsColumn rows bytes c := by
  cases h with
  | column hname hbitmap hlen _ hvalues hrows _ =>
      exact .column hname hbitmap (Nat.le_of_eq hlen.symm) (hvalues.imp fun _ _ hv => hv.1) hrows

/-- What is canonical is a row-set. -/
theorem IsCanonicalRowSet.isRowSet {bytes : List UInt8} {b : Batch} (h : IsCanonicalRowSet bytes b) :
    IsRowSet bytes b := by
  cases h with
  | rowSet hwidth hrows hcolumns =>
      exact .rowSet hwidth hrows (hcolumns.imp fun _ _ hc => hc.isColumn)

/-! ## Writing a column -/

/-- The placeholders of the kinds in all slots. -/
def blankSlots : Slots := fun _ k => k.placeholder

section

variable {k : Kind} {bytes : List UInt8} {rows : Nat}

theorem absentValue_blank (k : Kind) (row : Nat) :
    absentValue (blankSlots row) k = k.placeholder := by
  cases k <;> rfl

/-- **A value is written in its plain form.** -/
theorem writeValue_eq_ok_iff {v : k.type.Cell} :
    writeValue k v = .ok bytes ↔ IsPlainValue k bytes v := by
  cases k with
  | bool =>
      constructor
      · intro h
        refine ⟨writeValue_sound h, fun _ => ?_⟩
        obtain rfl := Except.ok.inj h
        cases v <;> decide
      · rintro ⟨⟨b, rfl, hv⟩, hplain⟩
        rcases hplain rfl with hb | hb
        · obtain rfl := List.singleton_inj.1 hb
          cases v with
          | false => rfl
          | true => exact absurd rfl (hv.1 rfl)
        · obtain rfl := List.singleton_inj.1 hb
          cases v with
          | false => exact absurd (hv.2 (by decide)) Bool.false_ne_true
          | true => rfl
  | int8 | int16 | int32 | int64 | float64 =>
      constructor
      · intro h
        exact ⟨(Except.ok.inj h).symm, nofun⟩
      · rintro ⟨rfl, -⟩
        rfl
  | utf8 | binary =>
      constructor
      · intro h
        exact ⟨writeBlock_eq_ok_iff.1 h, nofun⟩
      · rintro ⟨h, -⟩
        exact writeBlock_eq_ok_iff.2 h

theorem writeCells_eq_ok_iff {slots : Slots} {row : Nat} {cs : List (Option k.type.Cell)} :
    writeCells k slots row cs = .ok bytes ↔
      Series (IsPlainValue k) bytes (written k slots row cs) := by
  induction cs generalizing row bytes with
  | nil =>
      constructor
      · intro h
        obtain rfl := Except.ok.inj h
        exact .nil
      · intro h
        cases h
        rfl
  | cons c cs ih =>
      rw [written_cons]
      constructor
      · intro h
        obtain ⟨v, hv, h⟩ := bind_eq_ok_iff.1 h
        obtain ⟨vs, hvs, h⟩ := bind_eq_ok_iff.1 h
        obtain rfl := Except.ok.inj h
        exact .cons (writeValue_eq_ok_iff.1 hv) (ih.1 hvs)
      · intro h
        cases h with
        | cons hv hvs =>
            refine bind_eq_ok_iff.2 ⟨_, writeValue_eq_ok_iff.2 hv, ?_⟩
            exact bind_eq_ok_iff.2 ⟨_, ih.2 hvs, rfl⟩

/-- A bitmap that is no longer than needed and filled up with zeros is the one that is written. -/
theorem bitmapOf_cellsOf {α : Type} {bitmap : List UInt8} {values : List α}
    (hlen : bitmap.length = (values.length + 7) / 8)
    (hpad : ∀ row, values.length ≤ row → Bytes.bit bitmap row = false) :
    bitmapOf (cellsOf bitmap values) = bitmap := by
  refine Bytes.eq_of_bit ?_ fun row => ?_
  · rw [length_bitmapOf, cellsOf, List.length_mapIdx, hlen]
  · rw [bitmapOf, Bytes.bit_pack, List.getD_eq_getElem?_getD, List.getElem?_map, cellsOf,
      List.getElem?_mapIdx]
    rcases Nat.lt_or_ge row values.length with hrow | hrow
    · rw [List.getElem?_eq_getElem hrow]
      cases hbit : Bytes.bit bitmap row <;> rfl
    · rw [List.getElem?_eq_none hrow, hpad row hrow]
      rfl

/-- Values that are placeholders where cells are absent are those that are written. -/
theorem written_cellsOf {bitmap : List UInt8} {values : List k.type.Cell}
    (habsent : ∀ row v, Bytes.bit bitmap row = true → values[row]? = some v → v = k.placeholder) :
    written k blankSlots 0 (cellsOf bitmap values) = values := by
  refine List.ext_getElem? fun row => ?_
  rw [written, List.getElem?_mapIdx, cellsOf, List.getElem?_mapIdx]
  cases hv : values[row]? with
  | none => rfl
  | some v =>
      cases hbit : Bytes.bit bitmap row with
      | false => rfl
      | true =>
          rw [habsent row v hbit hv]
          exact congrArg some (absentValue_blank k _)

/-- A bitmap that is written is filled up with zeros. -/
theorem bit_bitmapOf_of_le {α : Type} {cs : List (Option α)} {row : Nat} (h : cs.length ≤ row) :
    Bytes.bit (bitmapOf cs) row = false := by
  rw [bitmapOf, Bytes.bit_pack, List.getD_eq_getElem?_getD, List.getElem?_map,
    List.getElem?_eq_none h]
  rfl

/-- What is written for an absent cell is its placeholder. -/
theorem eq_placeholder_of_bit {cs : List (Option k.type.Cell)} {row : Nat} {v : k.type.Cell}
    (hbit : Bytes.bit (bitmapOf cs) row = true)
    (hv : (written k blankSlots 0 cs)[row]? = some v) : v = k.placeholder := by
  rw [bitmapOf, Bytes.bit_pack, List.getD_eq_getElem?_getD, List.getElem?_map] at hbit
  rw [written, List.getElem?_mapIdx] at hv
  cases hc : cs[row]? with
  | none =>
      rw [hc] at hv
      cases hv
  | some c =>
      rw [hc] at hbit hv
      obtain rfl := Option.isNone_iff_eq_none.1 hbit
      rw [← Option.some.inj hv]
      exact absentValue_blank k _

theorem writeKind_canonical {name : String} {cs : List (Option k.type.Cell)}
    (h : writeKind name k blankSlots cs = .ok bytes) :
    IsCanonicalColumn cs.length bytes ⟨name, k.type, true, cs⟩ := by
  obtain ⟨nameBytes, hname, h⟩ := bind_eq_ok_iff.1 h
  obtain ⟨bitmapBytes, hbitmap, h⟩ := bind_eq_ok_iff.1 h
  obtain ⟨valueBytes, hvalues, h⟩ := bind_eq_ok_iff.1 h
  obtain rfl := Except.ok.inj h
  have hcolumn := IsCanonicalColumn.column (writeBlock_eq_ok_iff.1 hname)
    (writeBlock_eq_ok_iff.1 hbitmap) (length_bitmapOf cs) (fun _ => bit_bitmapOf_of_le)
    (writeCells_eq_ok_iff.1 hvalues) List.length_mapIdx fun _ _ => eq_placeholder_of_bit
  rw [cellsOf_bitmapOf] at hcolumn
  simpa [Bytes.ofNat] using hcolumn

theorem IsCanonicalColumn.writeColumn_eq {c : Column} (h : IsCanonicalColumn rows bytes c) :
    writeColumn blankSlots c = .ok bytes := by
  cases h with
  | column hname hbitmap hlen hpad hvalues hrows habsent =>
      subst hrows
      rw [writeColumn_of_kind]
      refine bind_eq_ok_iff.2 ⟨_, writeBlock_eq_ok_iff.2 hname, ?_⟩
      rw [bitmapOf_cellsOf hlen hpad]
      refine bind_eq_ok_iff.2 ⟨_, writeBlock_eq_ok_iff.2 hbitmap, ?_⟩
      refine bind_eq_ok_iff.2 ⟨_, writeCells_eq_ok_iff.2 ((written_cellsOf habsent).symm ▸ hvalues), ?_⟩
      simp [Bytes.ofNat]

/-- **A column is written in its canonical form**, and in no other. -/
theorem writeColumn_eq_ok_iff {c : Column} (hlen : c.cells.length = rows) (hnull : c.nullable = true) :
    writeColumn blankSlots c = .ok bytes ↔ IsCanonicalColumn rows bytes c := by
  refine ⟨fun h => ?_, IsCanonicalColumn.writeColumn_eq⟩
  by_cases hkind : ∃ k : Kind, k.type = c.type
  · obtain ⟨name, type, nullable, cs⟩ := c
    obtain ⟨k, rfl⟩ := hkind
    obtain rfl : nullable = true := hnull
    rw [writeColumn_of_kind] at h
    subst hlen
    exact writeKind_canonical h
  · rw [writeColumn_of_no_kind hkind] at h
    cases h

end

/-! ## Writing a batch -/

section

variable {rows : Nat} {bytes : List UInt8} {b : Batch}

theorem writeColumns_eq_ok_iff {i : Nat} {cs : List Column}
    (hcs : ∀ c ∈ cs, c.cells.length = rows ∧ c.nullable = true) :
    writeColumns (fun _ => blankSlots) i cs = .ok bytes ↔
      Series (IsCanonicalColumn rows) bytes cs := by
  induction cs generalizing i bytes with
  | nil =>
      constructor
      · intro h
        obtain rfl := Except.ok.inj h
        exact .nil
      · intro h
        cases h
        rfl
  | cons c cs ih =>
      obtain ⟨⟨hlen, hnull⟩, hrest⟩ := List.forall_mem_cons.1 hcs
      constructor
      · intro h
        obtain ⟨v, hv, h⟩ := bind_eq_ok_iff.1 h
        obtain ⟨vs, hvs, h⟩ := bind_eq_ok_iff.1 h
        obtain rfl := Except.ok.inj h
        exact .cons ((writeColumn_eq_ok_iff hlen hnull).1 hv) ((ih hrest).1 hvs)
      · intro h
        cases h with
        | cons hc hrestBytes =>
            refine bind_eq_ok_iff.2 ⟨_, hc.writeColumn_eq, ?_⟩
            exact bind_eq_ok_iff.2 ⟨_, (ih hrest).2 hrestBytes, rfl⟩

/-- **What is written is the canonical row-set of the batch**, and all of it. -/
theorem encode_eq_ok_iff (hb : ∀ c ∈ b.columns, c.cells.length = b.rows ∧ c.nullable = true) :
    encode b = .ok bytes ↔ IsCanonicalRowSet bytes b := by
  constructor
  · intro h
    obtain ⟨width, hwidth, h⟩ := bind_eq_ok_iff.1 h
    obtain ⟨rows, hrows, h⟩ := bind_eq_ok_iff.1 h
    obtain ⟨columns, hcolumns, h⟩ := bind_eq_ok_iff.1 h
    obtain ⟨hltwidth, rfl⟩ := writeCount_eq_ok_iff.1 hwidth
    obtain ⟨hltrows, rfl⟩ := writeCount_eq_ok_iff.1 hrows
    obtain rfl := Except.ok.inj h
    have hset := IsCanonicalRowSet.rowSet hltwidth hltrows ((writeColumns_eq_ok_iff hb).1 hcolumns)
    simpa [magic, version, Bytes.ofNat] using hset
  · intro h
    cases h with
    | rowSet hwidth hrows hcolumns =>
        refine bind_eq_ok_iff.2 ⟨_, writeCount_eq_ok_iff.2 ⟨hwidth, rfl⟩, ?_⟩
        refine bind_eq_ok_iff.2 ⟨_, writeCount_eq_ok_iff.2 ⟨hrows, rfl⟩, ?_⟩
        refine bind_eq_ok_iff.2 ⟨_, (writeColumns_eq_ok_iff hb).2 hcolumns, ?_⟩
        simp [magic, version, Bytes.ofNat]

/-! ## What is read can be written -/

theorem sizeOfValue_lt {k : Kind} {v : k.type.Cell} (h : IsValue k bytes v) :
    sizeOfValue k.type v < 2 ^ 32 := by
  cases k with
  | bool | int8 | int16 | int32 | int64 | float64 => exact Nat.two_pow_pos 32
  | utf8 | binary => exact h.1

theorem IsColumn.fits {c : Column} (h : IsColumn rows bytes c) : Fits c := by
  cases h with
  | @column name k bitmap _ _ _ values hname _ _ hvalues _ =>
      refine ⟨⟨k, rfl⟩, hname.1, fun v hv => ?_⟩
      have hall := hvalues.forall_mem fun _ _ => sizeOfValue_lt
      obtain ⟨row, hrow⟩ := List.getElem?_of_mem hv
      rw [cellsOf, List.getElem?_mapIdx] at hrow
      obtain ⟨w, hw, hcell⟩ := Option.map_eq_some_iff.1 hrow
      split at hcell
      · cases hcell
      · obtain rfl := Option.some.inj hcell
        exact hall w (List.mem_of_getElem? hw)

theorem IsRowSet.encodable (h : IsRowSet bytes b) : Encodable b := by
  cases h with
  | rowSet hwidth hrows hcolumns =>
      exact ⟨hwidth, hrows, hcolumns.forall_mem fun _ _ hc => hc.fits⟩

/-- The columns of a row-set have a cell per row, and all of them may be absent. -/
theorem IsRowSet.columns (h : IsRowSet bytes b) :
    ∀ c ∈ b.columns, c.cells.length = b.rows ∧ c.nullable = true := by
  cases h with
  | rowSet _ _ hcolumns => exact hcolumns.forall_mem fun _ _ hc => hc.length_nullable

/-! ## What is written is no longer -/

/-- The bytes that every value of a kind takes. -/
def Kind.width : Kind → Nat
  | bool => 1
  | int8 => 1
  | int16 => 2
  | int32 => 4
  | int64 => 8
  | float64 => 8
  | utf8 => 4
  | binary => 4

theorem IsBlock.length {content : List UInt8} (h : IsBlock bytes content) :
    bytes.length = 4 + content.length := by
  obtain ⟨-, rfl⟩ := h
  rw [List.length_append, Bytes.length_ofNat]

theorem IsValue.length {k : Kind} {v : k.type.Cell} (h : IsValue k bytes v) :
    bytes.length = k.width + sizeOfValue k.type v := by
  cases k with
  | bool =>
      obtain ⟨b, rfl, -⟩ := h
      rfl
  | int8 | int16 | int32 | int64 | float64 =>
      obtain rfl := h
      exact Bytes.length_ofNat _ _
  | utf8 | binary => exact IsBlock.length h

variable {slots : Slots} {written : List UInt8}

/-- An absent cell is written in no more bytes than any value takes. -/
theorem writeCells_length_le {k : Kind} {values : List k.type.Cell} {absent : Nat → Bool} {row : Nat}
    (h : Series (IsValue k) bytes values)
    (hw : writeCells k slots row (values.mapIdx fun i v => if absent i then none else some v) =
      .ok written) : written.length ≤ bytes.length := by
  induction h generalizing absent row written with
  | nil =>
      obtain rfl := Except.ok.inj hw
      exact Nat.le_refl _
  | @cons bytes rest v values hv _ ih =>
      rw [List.mapIdx_cons] at hw
      obtain ⟨first, hfirst, hw⟩ := bind_eq_ok_iff.1 hw
      obtain ⟨others, hothers, hw⟩ := bind_eq_ok_iff.1 hw
      obtain rfl := Except.ok.inj hw
      have hle : first.length ≤ bytes.length := by
        rw [(writeValue_sound hfirst).length, hv.length]
        cases absent 0 with
        | true =>
            rw [if_pos rfl, Option.getD_none, sizeOfValue_absent]
            omega
        | false => exact Nat.le_refl _
      have hrest : others.length ≤ rest.length := ih hothers
      rw [List.length_append, List.length_append]
      omega

theorem IsColumn.length_le {c : Column} (h : IsColumn rows bytes c)
    (hw : writeColumn slots c = .ok written) : written.length ≤ bytes.length := by
  cases h with
  | @column name k bitmap _ _ _ values hname hbitmap hcovers hvalues hrows =>
      rw [writeColumn_of_kind] at hw
      obtain ⟨nameWritten, hname', hw⟩ := bind_eq_ok_iff.1 hw
      obtain ⟨bitmapWritten, hbitmap', hw⟩ := bind_eq_ok_iff.1 hw
      obtain ⟨valuesWritten, hvalues', hw⟩ := bind_eq_ok_iff.1 hw
      obtain rfl := Except.ok.inj hw
      have hn := (writeBlock_eq_ok_iff.1 hname').length
      have hb := (writeBlock_eq_ok_iff.1 hbitmap').length
      have hv := writeCells_length_le hvalues hvalues'
      rw [length_bitmapOf, cellsOf, List.length_mapIdx, hrows] at hb
      simp only [List.length_append, List.length_cons, Bytes.length_ofNat, hn, hb, hname.length,
        hbitmap.length]
      omega

theorem writeColumns_length_le {slots : Nat → Slots} {i : Nat} {cs : List Column}
    (h : Series (IsColumn rows) bytes cs) (hw : writeColumns slots i cs = .ok written) :
    written.length ≤ bytes.length := by
  induction h generalizing i written with
  | nil =>
      obtain rfl := Except.ok.inj hw
      exact Nat.le_refl _
  | cons hc _ ih =>
      obtain ⟨first, hfirst, hw⟩ := bind_eq_ok_iff.1 hw
      obtain ⟨others, hothers, hw⟩ := bind_eq_ok_iff.1 hw
      obtain rfl := Except.ok.inj hw
      have hle := hc.length_le hfirst
      have hrest := ih hothers
      rw [List.length_append, List.length_append]
      omega

/-- **No row-set of a batch is shorter than one that is written for it**, whatever its columns hold
where cells are absent. -/
theorem IsRowSet.length_le {slots : Nat → Slots} (h : IsRowSet bytes b)
    (hw : encodeOver slots b = .ok written) : written.length ≤ bytes.length := by
  cases h with
  | rowSet _ _ hcolumns =>
      obtain ⟨width, hwidth, hw⟩ := bind_eq_ok_iff.1 hw
      obtain ⟨rows, hrows, hw⟩ := bind_eq_ok_iff.1 hw
      obtain ⟨columns, hcolumns', hw⟩ := bind_eq_ok_iff.1 hw
      obtain ⟨-, rfl⟩ := writeCount_eq_ok_iff.1 hwidth
      obtain ⟨-, rfl⟩ := writeCount_eq_ok_iff.1 hrows
      obtain rfl := Except.ok.inj hw
      have hle := writeColumns_length_le hcolumns hcolumns'
      simp only [List.length_append, Bytes.length_ofNat, magic, List.length_cons, List.length_nil]
      omega

end

/-- **Writing what was read makes it canonical.** Bytes that are accepted are read as a batch that can
be written, and what is then written

* is no longer than they are;
* is the same bytes exactly if they were canonical;
* is canonical in any case, and is read as the same batch. -/
theorem reencoded_canonical {bytes : List UInt8} {b : Batch} (h : decode bytes = .ok b) :
    ∃ plain, encode b = .ok plain
      ∧ plain.length ≤ bytes.length
      ∧ (plain = bytes ↔ IsCanonical bytes)
      ∧ IsCanonical plain ∧ decode plain = .ok b := by
  have hset := decode_eq_ok_iff.1 h
  obtain ⟨plain, hplain⟩ := (encodeOver_ok_iff hset.wellFormed).2 hset.encodable
  have hcanonical : IsCanonicalRowSet plain b := (encode_eq_ok_iff hset.columns).1 hplain
  refine ⟨plain, hplain, hset.length_le hplain, ⟨?_, ?_⟩, ⟨b, hcanonical⟩,
    decode_eq_ok_iff.2 hcanonical.isRowSet⟩
  · rintro rfl
    exact ⟨b, hcanonical⟩
  · rintro ⟨c, hc⟩
    -- the bytes are canonical for the batch that they are read as
    have hread : decode bytes = .ok c := decode_eq_ok_iff.2 hc.isRowSet
    obtain rfl : b = c := Except.ok.inj (h.symm.trans hread)
    have hsame : encode b = .ok bytes := (encode_eq_ok_iff hset.columns).2 hc
    exact Except.ok.inj (hplain.symm.trans hsame)

namespace Sample

/-- Two truth values around an absent one: true is written as 7, the bitmap is a byte longer than
needed, its last bits are set, and the absent cell holds a 9. -/
def loose : List UInt8 :=
  [0x44, 0x42, 0x52, 0x53, 1, 1, 0, 0, 0, 3, 0, 0, 0] ++ [1, 0, 0, 0, 0x62, 0, 2, 0, 0, 0, 0xf2, 0xff]
    ++ [7, 9, 0]

/-- The batch that they are read as. -/
def flags : Batch := ⟨[⟨"b", .boolean, true, [some true, none, some false]⟩], 3⟩

/-- Its canonical row-set. -/
def strict : List UInt8 :=
  [0x44, 0x42, 0x52, 0x53, 1, 1, 0, 0, 0, 3, 0, 0, 0] ++ [1, 0, 0, 0, 0x62, 0, 1, 0, 0, 0, 2]
    ++ [1, 0, 0]

end Sample

/-- Bytes that use every freedom lose it. -/
theorem reencoded_canonical_loose :
    decode Sample.loose = .ok Sample.flags ∧ encode Sample.flags = .ok Sample.strict
      ∧ Sample.strict.length ≤ Sample.loose.length ∧ ¬ IsCanonical Sample.loose
      ∧ IsCanonical Sample.strict ∧ decode Sample.strict = .ok Sample.flags := by
  have hread : decode Sample.loose = .ok Sample.flags := rfl
  have hwritten : encode Sample.flags = .ok Sample.strict := by
    have hsame : (encode Sample.flags).toOption = some Sample.strict := by decide +kernel
    cases hencode : encode Sample.flags with
    | error _ => simp [hencode, Except.toOption] at hsame
    | ok written => simpa [hencode, Except.toOption] using hsame
  obtain ⟨plain, hplain, hle, hiff, hcanonical, hback⟩ := reencoded_canonical hread
  obtain rfl : Sample.strict = plain := Except.ok.inj (hwritten.symm.trans hplain)
  exact ⟨hread, hwritten, hle, fun h => absurd (hiff.2 h) (by decide), hcanonical, hback⟩

end ResultChunks.RowSet
