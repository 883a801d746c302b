import ResultChunks.Proofs.RowSet.Grammar

/-!
# Cut and extended row-sets

How many bytes a row-set takes is nowhere written down: it depends on counts, tags and lengths that
are read along the way. Still no row-set is the beginning of another one, because a reader never
looks past what it reads. As long as its input does not end in the middle of a part, the reader does
the same whatever follows, and leaves that alone (`Steady`). So on the beginning of a row-set the
readers go the way that they go on the whole, up to the part that is cut, and there they notice.
-/

namespace ResultChunks.RowSet

section

variable {α β : Type} {more : List UInt8} {x y : Except Fault (α × List UInt8)}

/-- The input ended in the middle of a part. -/
def EndsEarly {γ : Type} (x : Except Fault γ) : Prop := ∃ part, x = .error (.truncated part)

/-- What comes of an input, and what comes of it when more bytes follow: the same, with these left
over as well, unless the input ended early. -/
def Alike (more : List UInt8) (x y : Except Fault (α × List UInt8)) : Prop :=
  EndsEarly x ∨ y = x.map fun p => (p.1, p.2 ++ more)

/-- A reader that does not look past what it reads. -/
def Steady (r : Reader α) : Prop := ∀ s more, Alike more (r s) (r (s ++ more))

theorem alike_ok (v : α) (rest : List UInt8) : Alike more (.ok (v, rest)) (.ok (v, rest ++ more)) :=
  .inr rfl

theorem alike_error (fault : Fault) :
    Alike more (.error fault : Except Fault (α × List UInt8)) (.error fault) := .inr rfl

theorem EndsEarly.bind {γ δ : Type} {x : Except Fault γ} (h : EndsEarly x) (f : γ → Except Fault δ) :
    EndsEarly (x >>= f) := by
  obtain ⟨part, rfl⟩ := h
  exact ⟨part, rfl⟩

/-- **What goes on alike comes to the same.** -/
theorem Alike.bind {f : α × List UInt8 → Except Fault (β × List UInt8)} (h : Alike more x y)
    (hf : ∀ v rest, Alike more (f (v, rest)) (f (v, rest ++ more))) :
    Alike more (x >>= f) (y >>= f) := by
  rcases h with hearly | rfl
  · exact .inl (hearly.bind f)
  · cases x with
    | error fault => exact alike_error fault
    | ok p => exact hf p.1 p.2

/-! ## The readers are steady -/

theorem steady_take (n : Nat) (part : Part) : Steady (take n part) := by
  intro s more
  cases hs : Bytes.split? n s with
  | none => exact .inl ⟨part, by rw [take, hs]⟩
  | some p =>
      obtain ⟨hlen, heq⟩ := Bytes.split?_eq_some_iff.1 hs
      have hmore : Bytes.split? n (s ++ more) = some (p.1, p.2 ++ more) :=
        Bytes.split?_eq_some_iff.2 ⟨hlen, by rw [heq, List.append_assoc]⟩
      rw [take, take, hs, hmore]
      exact alike_ok p.1 p.2

theorem steady_number (width : Nat) (part : Part) : Steady (number width part) := by
  intro s more
  exact (steady_take width part s more).bind fun bs rest => alike_ok (Bytes.toNat bs) rest

theorem steady_block (lengthPart part : Part) : Steady (block lengthPart part) := by
  intro s more
  exact (steady_number 4 lengthPart s more).bind fun n rest => steady_take n part rest more

theorem steady_textBlock (lengthPart part : Part) (fault : Utf8.Fault → Fault) :
    Steady (textBlock lengthPart part fault) := by
  intro s more
  refine (steady_block lengthPart part s more).bind fun bs rest => ?_
  dsimp only
  cases Utf8.decode bs with
  | ok t => exact alike_ok t rest
  | error f => exact alike_error (fault f)

theorem steady_value (blame : Utf8.Fault → Fault) (k : Kind) : Steady (value blame k) := by
  intro s more
  cases k with
  | bool | int8 | int16 | int32 | int64 | float64 =>
      exact (steady_number _ _ s more).bind fun n rest => alike_ok _ rest
  | utf8 => exact steady_textBlock _ _ _ s more
  | binary => exact steady_block _ _ s more

theorem steady_cells (column : String) (k : Kind) (row : Nat) (absent : List Bool) :
    Steady (cells column k row absent) := by
  induction absent generalizing row with
  | nil =>
      intro s more
      exact alike_ok [] s
  | cons a absent ih =>
      intro s more
      refine (steady_value _ k s more).bind fun v rest => ?_
      exact (ih (row + 1) rest more).bind fun cs rest => alike_ok _ rest

theorem steady_column (rows : Nat) : Steady (column rows) := by
  intro s more
  refine (steady_textBlock _ _ _ s more).bind fun name rest => ?_
  refine (steady_number 1 .tag rest more).bind fun tag rest => ?_
  dsimp only
  cases Kind.ofTag? tag with
  | none => exact alike_error _
  | some k =>
      refine (steady_block _ _ rest more).bind fun bitmap rest => ?_
      dsimp only
      by_cases hshort : bitmap.length < Bytes.sizeOfBits rows
      · rw [if_pos hshort, if_pos hshort]
        exact alike_error _
      · rw [if_neg hshort, if_neg hshort]
        exact (steady_cells _ _ _ _ rest more).bind fun cs rest => alike_ok _ rest

theorem steady_columns (rows n : Nat) : Steady (columns rows n) := by
  induction n with
  | zero =>
      intro s more
      exact alike_ok [] s
  | succ n ih =>
      intro s more
      refine (steady_column rows s more).bind fun c rest => ?_
      exact (ih rest more).bind fun cs rest => alike_ok _ rest

theorem steady_header : Steady header := by
  intro s more
  refine (steady_take headerSize .header s more).bind fun h rest => ?_
  dsimp only
  by_cases hmagic : h.take 4 ≠ magic
  · rw [if_pos hmagic, if_pos hmagic]
    exact alike_error _
  · rw [if_neg hmagic, if_neg hmagic]
    by_cases hversion : Bytes.toNat ((h.drop 4).take 1) ≠ version
    · rw [if_pos hversion, if_pos hversion]
      exact alike_error _
    · rw [if_neg hversion, if_neg hversion]
      exact alike_ok _ rest

end

/-! ## Whole inputs -/

/-- Read the counts and the columns of a row-set, and not yet its end. -/
def contents : Reader ((Nat × Nat) × List Column) := fun s => do
  let (counts, s) ← header s
  let (cs, s) ← columns counts.2 counts.1 s
  .ok ((counts, cs), s)

theorem steady_contents : Steady contents := by
  intro s more
  refine (steady_header s more).bind fun counts rest => ?_
  exact (steady_columns _ _ rest more).bind fun cs rest => alike_ok _ rest

/-- What comes of a whole input is what comes of its contents, if nothing is left. -/
theorem decode_eq (bytes : List UInt8) : decode bytes = contents bytes >>= fun p =>
    if p.2 ≠ [] then .error (.trailing p.2.length)
    else
      match Batch.ofColumns? p.1.2 p.1.1.2 with
      | some b => .ok b
      | none => .error .noBatch := by
  rw [decode, contents]
  cases header bytes with
  | error fault => rfl
  | ok h =>
      change (columns _ _ _ >>= _) = ((columns _ _ _ >>= _) >>= _)
      cases columns h.1.2 h.1.1 h.2 <;> rfl

variable {s more : List UInt8} {b : Batch}

/-- The contents of a row-set reach to its end. -/
theorem contents_of_decode (h : decode s = .ok b) : ∃ x, contents s = .ok (x, []) := by
  rw [decode_eq, bind_eq_ok_iff] at h
  obtain ⟨⟨x, rest⟩, hx, h⟩ := h
  dsimp only at h
  split at h
  · cases h
  · rename_i hend
    rw [Decidable.not_not] at hend
    exact ⟨x, by rw [hx, hend]⟩

/-- **A row-set whose end is missing ends early.** -/
theorem endsEarly_of_cut (h : decode (s ++ more) = .ok b) (hmore : more ≠ []) :
    EndsEarly (decode s) := by
  obtain ⟨x, hx⟩ := contents_of_decode h
  rcases steady_contents s more with hearly | hsame
  · rw [decode_eq]
    exact hearly.bind _
  · -- else its contents are all there, and what is missing is nothing
    rw [hx] at hsame
    cases hs : contents s with
    | error fault => rw [hs] at hsame; cases hsame
    | ok p =>
        rw [hs] at hsame
        have hrest : [] = p.2 ++ more := (Prod.mk.inj (Except.ok.inj hsame)).2
        exact absurd (List.append_eq_nil_iff.1 hrest.symm).2 hmore

/-- **What follows a row-set is counted.** -/
theorem trailing_of_extension (h : decode s = .ok b) (hmore : more ≠ []) :
    decode (s ++ more) = .error (.trailing more.length) := by
  obtain ⟨x, hx⟩ := contents_of_decode h
  rcases steady_contents s more with ⟨part, hearly⟩ | hsame
  · rw [hx] at hearly
    cases hearly
  · rw [hx] at hsame
    rw [decode_eq, hsame]
    exact if_pos hmore

/-- **Every cut and every extension of a row-set is noticed.** Bytes that are accepted are refused
when some are missing at their end, and the fault names the part in which the input ends; and they are
refused when others follow, and the fault counts these. So no row-set is the beginning of another. -/
theorem cut_or_extended_refused {bytes : List UInt8} {b : Batch} (h : decode bytes = .ok b) :
    (∀ cut : List UInt8, cut <+: bytes → cut ≠ bytes →
        ∃ part, decode cut = .error (.truncated part))
      ∧ (∀ more : List UInt8, more ≠ [] → decode (bytes ++ more) = .error (.trailing more.length))
      ∧ ∀ (other : List UInt8) (c : Batch), decode other = .ok c → bytes <+: other →
        bytes = other := by
  refine ⟨?_, fun more => trailing_of_extension h, ?_⟩
  · rintro cut ⟨missing, rfl⟩ hne
    refine endsEarly_of_cut h fun hnil => hne ?_
    rw [hnil, List.append_nil]
  · rintro other c hother ⟨more, rfl⟩
    by_cases hmore : more = []
    · rw [hmore, List.append_nil]
    · rw [trailing_of_extension h hmore] at hother
      cases hother

namespace Sample

/-- A column of texts, the second of them absent. -/
def texts : List UInt8 :=
  [0x44, 0x42, 0x52, 0x53, 1, 1, 0, 0, 0, 2, 0, 0, 0] ++ [1, 0, 0, 0, 0x6e, 6, 1, 0, 0, 0, 2]
    ++ [2, 0, 0, 0, 0xce, 0xb3, 0, 0, 0, 0]

end Sample

/-- Cut inside a value, and with a byte too many. -/
theorem cut_or_extended_refused_texts :
    decode Sample.texts = .ok ⟨[⟨"n", .utf8, true, [some "γ", none]⟩], 2⟩
      ∧ (∃ part, decode (Sample.texts.take 29) = .error (.truncated part))
      ∧ decode (Sample.texts ++ [0]) = .error (.trailing 1) := by
  have h : decode Sample.texts = .ok ⟨[⟨"n", .utf8, true, [some "γ", none]⟩], 2⟩ := rfl
  obtain ⟨hcut, hmore, -⟩ := cut_or_extended_refused h
  exact ⟨h, hcut _ (List.take_prefix _ _) (by decide), hmore [0] (List.cons_ne_nil _ _)⟩

end ResultChunks.RowSet
