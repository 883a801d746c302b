import Mathlib.Algebra.Ring.Int.Defs
import Mathlib.Tactic.Common
import ResultChunks.Manifest.Basic

/-!
# The geometry of a manifest

The check of a list of chunks walks along it with the position and the row that the next chunk should
have. `Abut` is what it looks for, and it finds it exactly: `checkChunks_eq_ok_iff`. From there the
index of a chunk is its position, and a chunk starts no earlier than all chunks before it end. Two
chunks start at one row only if the first of them is empty, so the starts of all chunks differ exactly
when no chunk but the last is empty.
-/

namespace ResultChunks.Manifest

/-- Chunks from a position and a row on: indices count up, no size is negative, and each chunk starts
at the row where the one before it ends. -/
inductive Abut : Nat → Int → List ChunkMeta → Prop where
  | nil (position : Nat) (start : Int) : Abut position start []
  | cons {position : Nat} {start : Int} {c : ChunkMeta} {cs : List ChunkMeta} :
      c.index = position → 0 ≤ c.rowCount → 0 ≤ c.byteCount → c.rowOffset = start →
      Abut (position + 1) (start + c.rowCount) cs → Abut position start (c :: cs)

/-- The rows of chunks together. -/
def rowsOf (cs : List ChunkMeta) : Int := (cs.map ChunkMeta.rowCount).sum

/-! ## What the check finds -/

theorem checkChunk_eq_ok_iff {position : Nat} {start : Int} {c : ChunkMeta} :
    checkChunk position start c = .ok () ↔
      c.index = position ∧ (0 ≤ c.rowCount ∧ 0 ≤ c.byteCount) ∧ c.rowOffset = start := by
  unfold checkChunk
  split
  · rename_i hindex
    simp [hindex]
  · rename_i hindex
    split
    · simp
      omega
    · rename_i hsize
      split
      · rename_i hstart
        simp [hstart]
      · rename_i hstart
        simp at hindex hstart
        simp [hindex, hstart]
        omega

/-- **The check of chunks finds the ones that abut, and counts their rows.** -/
theorem checkChunks_eq_ok_iff {cs : List ChunkMeta} {position : Nat} {start rows : Int} :
    checkChunks position start cs = .ok rows ↔ Abut position start cs ∧ rows = rowsOf cs := by
  induction cs generalizing position start rows with
  | nil =>
    constructor
    · intro h
      cases h
      exact ⟨.nil _ _, rfl⟩
    · rintro ⟨-, rfl⟩
      rfl
  | cons c cs ih =>
    constructor
    · intro h
      cases hc : checkChunk position start c with
      | error e => simp [checkChunks, hc, bind, Except.bind] at h
      | ok u =>
        cases hcs : checkChunks (position + 1) (start + c.rowCount) cs with
        | error e => simp [checkChunks, hc, hcs, bind, Except.bind] at h
        | ok rest =>
          obtain ⟨hindex, ⟨hrows, hbytes⟩, hstart⟩ := checkChunk_eq_ok_iff.1 hc
          obtain ⟨habut, rfl⟩ := ih.1 hcs
          simp only [checkChunks, hc, hcs, bind, Except.bind, Except.ok.injEq] at h
          exact ⟨.cons hindex hrows hbytes hstart habut, by simp [rowsOf, ← h]⟩
    · rintro ⟨h, rfl⟩
      cases h with
      | cons hindex hrows hbytes hstart habut =>
        have hc := checkChunk_eq_ok_iff.2 ⟨hindex, ⟨hrows, hbytes⟩, hstart⟩
        simp [checkChunks, hc, ih.2 ⟨habut, rfl⟩, bind, Except.bind, rowsOf]

/-- The chunks of a checked manifest abut from its first row on, and their rows are its total. -/
structure Laid (m : Manifest) : Prop where
  abut : Abut 0 (firstRow m.chunks) m.chunks
  total : rowsOf m.chunks = m.totalRows

/-- **A manifest is made exactly of the chunks that abut once they are sorted.** -/
theorem ofChunks_eq_ok_iff {total : Int} {codec : Codec} {format : Format} {cs : List ChunkMeta}
    {m : Manifest} :
    ofChunks total codec format cs = .ok m ↔
      m = ⟨total, codec, format, sortByIndex cs⟩ ∧ Laid m := by
  constructor
  · intro h
    cases hrows : checkChunks 0 (firstRow (sortByIndex cs)) (sortByIndex cs) with
    | error e => simp [ofChunks, check, hrows, bind, Except.bind] at h
    | ok rows =>
      obtain ⟨habut, hsum⟩ := checkChunks_eq_ok_iff.1 hrows
      by_cases htotal : rows = total
      · simp only [ofChunks, check, hrows, bind, Except.bind, htotal, ne_eq, not_true_eq_false,
          if_false, Except.ok.injEq] at h
        subst h
        exact ⟨rfl, habut, by rw [← htotal, hsum]⟩
      · simp [ofChunks, check, hrows, bind, Except.bind, htotal] at h
  · rintro ⟨rfl, habut, htotal⟩
    have hrows := checkChunks_eq_ok_iff.2 ⟨habut, rfl⟩
    simp only at hrows htotal
    simp [ofChunks, check, hrows, bind, Except.bind, htotal]

/-! ## Where the chunks lie -/

namespace Abut

variable {position : Nat} {start : Int} {cs : List ChunkMeta}

theorem index_eq (h : Abut position start cs) {i : Nat} {c : ChunkMeta} (hc : cs[i]? = some c) :
    c.index = position + i := by
  induction h generalizing i with
  | nil => simp at hc
  | cons hindex _ _ _ _ ih =>
    cases i with
    | zero =>
      obtain rfl := Option.some.inj hc
      simpa using hindex
    | succ i =>
      rw [ih hc]
      push_cast
      omega

theorem size_nonneg (h : Abut position start cs) {c : ChunkMeta} (hc : c ∈ cs) :
    0 ≤ c.rowCount ∧ 0 ≤ c.byteCount := by
  induction h with
  | nil => simp at hc
  | cons _ hrows hbytes _ _ ih =>
    rcases List.mem_cons.1 hc with rfl | hc
    · exact ⟨hrows, hbytes⟩
    · exact ih hc

theorem start_le (h : Abut position start cs) {c : ChunkMeta} (hc : c ∈ cs) :
    position ≤ c.index ∧ start ≤ c.rowOffset := by
  induction h with
  | nil => simp at hc
  | cons hindex hrows _ hstart _ ih =>
    rcases List.mem_cons.1 hc with rfl | hc
    · omega
    · obtain ⟨hposition, hle⟩ := ih hc
      push_cast at hposition
      omega

/-- A chunk has a greater index than those before it, and starts where they have ended. -/
theorem pairwise (h : Abut position start cs) :
    cs.Pairwise fun c d => c.index < d.index ∧ c.rowOffset + c.rowCount ≤ d.rowOffset := by
  induction h with
  | nil => exact .nil
  | cons hindex _ _ hstart habut ih =>
    refine .cons (fun d hd => ?_) ih
    obtain ⟨hposition, hle⟩ := habut.start_le hd
    push_cast at hposition
    omega

/-- The next chunk starts where a chunk ends. -/
theorem next_start (h : Abut position start cs) {i : Nat} {c d : ChunkMeta} (hc : cs[i]? = some c)
    (hd : cs[i + 1]? = some d) : d.rowOffset = c.rowOffset + c.rowCount := by
  induction h generalizing i with
  | nil => simp at hc
  | cons _ _ _ hstart habut ih =>
    cases i with
    | zero =>
      obtain rfl := Option.some.inj hc
      cases habut with
      | nil => simp at hd
      | cons _ _ _ hnext _ =>
        obtain rfl := Option.some.inj hd
        omega
    | succ i => exact ih hc hd

/-- Chunks that abut are in the order of their indices. -/
theorem sortByIndex_eq (h : Abut position start cs) : sortByIndex cs = cs := by
  refine List.mergeSort_of_pairwise (h.pairwise.imp ?_)
  intro c d hcd
  exact decide_eq_true (Int.le_of_lt hcd.1)

end Abut

/-- Chunks that abut and add up to a total make a manifest as they are. -/
theorem ofChunks_of_checkChunks {total : Int} {cs : List ChunkMeta}
    (h : checkChunks 0 (firstRow cs) cs = .ok total) (codec : Codec) (format : Format) :
    ofChunks total codec format cs = .ok ⟨total, codec, format, cs⟩ := by
  obtain ⟨habut, rfl⟩ := checkChunks_eq_ok_iff.1 h
  exact ofChunks_eq_ok_iff.2 ⟨by rw [habut.sortByIndex_eq], habut, rfl⟩

/-- Only the last chunk may be without rows. -/
def OnlyLastEmpty (m : Manifest) : Prop :=
  ∀ (i : Nat) (c : ChunkMeta), m.chunks[i]? = some c → i + 1 < m.count → 0 < c.rowCount

/-- Chunks that start at one row are the same chunk. -/
def StartsDiffer (m : Manifest) : Prop :=
  ∀ c ∈ m.chunks, ∀ d ∈ m.chunks, c.rowOffset = d.rowOffset → c = d

/-- **The starts of chunks differ exactly when no chunk but the last is empty.** -/
theorem Laid.startsDiffer_iff {m : Manifest} (h : Laid m) : StartsDiffer m ↔ OnlyLastEmpty m := by
  constructor
  · intro hdiffer i c hc hi
    obtain ⟨d, hd⟩ : ∃ d, m.chunks[i + 1]? = some d := ⟨_, List.getElem?_eq_getElem hi⟩
    have hnext := h.abut.next_start hc hd
    have hnonneg := (h.abut.size_nonneg (List.mem_of_getElem? hc)).1
    have hindex := h.abut.index_eq hc
    have hindex' := h.abut.index_eq hd
    by_contra hempty
    have heq := hdiffer c (List.mem_of_getElem? hc) d (List.mem_of_getElem? hd) (by omega)
    rw [heq] at hindex
    push_cast at hindex hindex'
    omega
  · intro hlast c hc d hd hstart
    -- of two chunks that start at one row, the first would have to be empty
    have apart : ∀ {i j : Nat} {c d : ChunkMeta}, m.chunks[i]? = some c → m.chunks[j]? = some d →
        i < j → c.rowOffset < d.rowOffset := by
      intro i j c d hc hd hij
      obtain ⟨hi, rfl⟩ := List.getElem?_eq_some_iff.1 hc
      obtain ⟨hj, rfl⟩ := List.getElem?_eq_some_iff.1 hd
      have hends := (List.pairwise_iff_getElem.1 h.abut.pairwise i j hi hj hij).2
      have hrows := hlast i _ hc (by show i + 1 < m.chunks.length; omega)
      omega
    obtain ⟨i, hi⟩ := List.getElem?_of_mem hc
    obtain ⟨j, hj⟩ := List.getElem?_of_mem hd
    rcases Nat.lt_trichotomy i j with hij | rfl | hij
    · have hlt := apart hi hj hij
      omega
    · rw [hi] at hj
      exact Option.some.inj hj
    · have hlt := apart hj hi hij
      omega

end ResultChunks.Manifest
