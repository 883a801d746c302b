import ResultChunks.Payload.Decode
import ResultChunks.Proofs.RowSet.Grammar

/-!
# The schema of a payload

A payload is decoded to any number of batches, but to one schema. A row-set is a single batch. An
Arrow stream says its fields once, in its first message, and a reader of such streams makes every batch
for these fields; the reader of this library does, as every column of a later message is built for one
of them. So it makes no difference from which batch of a payload the schema is taken, as long as there
is one.
-/

namespace ResultChunks

open RowSet (bind_eq_ok_iff)

namespace Arrow

theorem column_field {f : Field} {node : Node} {buffers : List (List UInt8)} {c : Column}
    (h : column f node buffers = .ok c) : c.field = f := by
  unfold column at h
  split at h
  · cases h
  · dsimp only at h
    split at h
    · obtain rfl := Except.ok.inj h
      rfl
    · cases h

/-- The columns of a batch are those of the fields, in order. -/
theorem columns_fields {body : Run} {compressed : Bool} {schema : Schema} {nodes : List Node}
    {extents : List Extent} {cs : List Column}
    (h : columns body compressed schema nodes extents = .ok cs) : cs.map Column.field = schema := by
  induction schema generalizing nodes extents cs with
  | nil =>
      obtain rfl := Except.ok.inj h
      rfl
  | cons f fs ih =>
      cases nodes with
      | nil => cases h
      | cons node nodes =>
          rw [columns] at h
          split at h
          · cases h
          · obtain ⟨buffers, -, h⟩ := bind_eq_ok_iff.1 h
            obtain ⟨c, hc, h⟩ := bind_eq_ok_iff.1 h
            obtain ⟨rest, hrest, h⟩ := bind_eq_ok_iff.1 h
            obtain rfl := Except.ok.inj h
            rw [List.map_cons, column_field hc, ih hrest]

theorem batch_schema {schema : Schema} {head : BatchHead} {body : Run} {b : Batch}
    (h : batch schema head body = .ok b) : b.schema = schema := by
  obtain ⟨cs, hcs, h⟩ := bind_eq_ok_iff.1 h
  split at h
  · cases h
  · split at h
    · rename_i b' hb
      obtain rfl := Except.ok.inj h
      obtain ⟨rfl, -⟩ := Batch.ofColumns?_eq_some_iff.1 hb
      exact columns_fields hcs
    · cases h

/-- **All batches of a stream have the schema at its head.** -/
theorem Stream.batches_schema {schema : Schema} {fuel : Nat} {s : List UInt8} {bs : List Batch}
    (h : batches schema fuel s = .ok bs) : ∀ b ∈ bs, b.schema = schema := by
  have none_left : ∀ {bs : List Batch}, (.ok [] : Except Fault (List Batch)) = .ok bs →
      ∀ b ∈ bs, b.schema = schema := by
    intro bs h
    obtain rfl := Except.ok.inj h
    simp
  induction fuel generalizing s bs with
  | zero => exact none_left h
  | succ fuel ih =>
      rw [batches] at h
      split at h
      · exact none_left h
      · obtain ⟨⟨size, s⟩, -, h⟩ := bind_eq_ok_iff.1 h
        dsimp only at h
        split at h
        · exact none_left h
        · obtain ⟨⟨metadata, s⟩, -, h⟩ := bind_eq_ok_iff.1 h
          obtain ⟨message, -, h⟩ := bind_eq_ok_iff.1 h
          split at h
          · exact none_left h
          · split at h
            · cases h
            · obtain ⟨⟨body, s⟩, -, h⟩ := bind_eq_ok_iff.1 h
              obtain ⟨b, hb, h⟩ := bind_eq_ok_iff.1 h
              obtain ⟨rest, hrest, h⟩ := bind_eq_ok_iff.1 h
              obtain rfl := Except.ok.inj h
              exact List.forall_mem_cons.2 ⟨batch_schema hb, ih hrest⟩
          · cases h
          · cases h

end Arrow

namespace Payload

/-- A list of results that were all read holds each of them. -/
theorem mem_of_mapM_id {items : List (Except String Batch)} {batches : List Batch}
    (h : items.mapM id = .ok batches) : ∀ b ∈ batches, .ok b ∈ items := by
  induction items generalizing batches with
  | nil =>
      obtain rfl := Except.ok.inj h
      simp
  | cons item items ih =>
      rw [List.mapM_cons] at h
      obtain ⟨b, hb, h⟩ := bind_eq_ok_iff.1 h
      obtain ⟨bs, hbs, h⟩ := bind_eq_ok_iff.1 h
      obtain rfl := Except.ok.inj h
      refine List.forall_mem_cons.2 ⟨?_, fun b' hb' => List.mem_cons_of_mem _ (ih hbs b' hb')⟩
      rw [← show item = .ok b from hb]
      exact List.mem_cons_self ..

/-- The readers of this library keep to the schema of a stream. -/
theorem Decoders.standard_oneSchema : Decoders.standard.OneSchema := by
  intro bytes schema items h b hb
  rw [standard] at h
  dsimp only at h
  split at h
  · cases h
  · obtain ⟨rfl, rfl⟩ := Prod.mk.inj (Except.ok.inj h)
    rw [streamItems] at hb
    split at hb
    · cases List.mem_singleton.1 hb
    · rename_i batches hall
      obtain ⟨b', hb', hok⟩ := List.mem_map.1 hb
      obtain rfl := Except.ok.inj hok
      exact Arrow.Stream.batches_schema hall b' hb'

/-- **All batches of a payload have one schema**, if the reader of Arrow streams keeps to that of the
stream. -/
theorem decode_schema {d : Decoders} {codec : Codec} {format : Format} {bytes : List UInt8}
    {batches : List Batch} (hd : d.OneSchema) (h : decode d codec format bytes = .ok batches) :
    ∃ schema, ∀ b ∈ batches, b.schema = schema := by
  obtain ⟨plain, -, h⟩ := bind_eq_ok_iff.1 h
  cases hread : read d format plain with
  | error fault => rw [hread] at h; cases h
  | ok bs =>
      rw [hread] at h
      obtain rfl := Except.ok.inj h
      cases format with
      | rowSet =>
          rw [read, readRowSet] at hread
          split at hread
          · cases hread
          · rename_i batch hbatch
            obtain rfl := Except.ok.inj hread
            exact ⟨batch.schema, fun b hb => congrArg Batch.schema (List.mem_singleton.1 hb)⟩
      | arrowStream =>
          rw [read, readArrow] at hread
          split at hread
          · cases hread
          · rename_i schema items hopen
            split at hread
            · cases hread
            · rename_i bs' hall
              obtain rfl := Except.ok.inj hread
              exact ⟨schema, fun b hb => hd _ _ _ hopen b (mem_of_mapM_id hall b hb)⟩

end Payload

end ResultChunks
