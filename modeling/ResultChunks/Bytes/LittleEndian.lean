/-!
# Numbers as bytes

A number is written with its lowest byte first, in as many bytes as its width says, and truth
values are packed eight to a byte, the first one in the lowest bit. Each way back is stated beside
it.
-/

namespace ResultChunks.Bytes

/-- The number that bytes stand for, lowest byte first. -/
def toNat : List UInt8 → Nat
  | [] => 0
  | b :: bs => b.toNat + 256 * toNat bs

/-- A number in a given count of bytes, lowest byte first. -/
def ofNat : Nat → Nat → List UInt8
  | 0, _ => []
  | width + 1, n => UInt8.ofNat n :: ofNat width (n / 256)

@[simp] theorem length_ofNat (width n : Nat) : (ofNat width n).length = width := by
  induction width generalizing n with
  | zero => rfl
  | succ w ih => simp [ofNat, ih]

theorem toNat_ofNat (width n : Nat) : toNat (ofNat width n) = n % Nat.pow 256 width := by
  induction width generalizing n with
  | zero => simp [ofNat, toNat, Nat.mod_one]
  | succ w ih =>
    have h : (UInt8.ofNat n).toNat = n % 256 := by simp
    have hw : Nat.pow 256 (w + 1) = 256 * Nat.pow 256 w := Nat.mul_comm (Nat.pow 256 w) 256
    rw [ofNat, toNat, ih, h, hw, Nat.mod_mul]

theorem ofNat_toNat (bs : List UInt8) : ofNat bs.length (toNat bs) = bs := by
  induction bs with
  | nil => rfl
  | cons b bs ih =>
    have hb := b.toNat_lt
    have h1 : UInt8.ofNat (b.toNat + 256 * toNat bs) = b := by
      apply UInt8.toNat_inj.mp
      simp only [UInt8.toNat_ofNat']
      omega
    have h2 : (b.toNat + 256 * toNat bs) / 256 = toNat bs := by omega
    simp only [List.length_cons, toNat, ofNat, h1, h2, ih]

theorem toNat_lt (bs : List UInt8) : toNat bs < Nat.pow 256 bs.length := by
  induction bs with
  | nil => simp [toNat]
  | cons b bs ih =>
    have hb := b.toNat_lt
    have hn : Nat.pow 256 (bs.length + 1) = 256 * Nat.pow 256 bs.length :=
      Nat.mul_comm (Nat.pow 256 bs.length) 256
    simp only [toNat, List.length_cons, hn]
    omega

theorem toNat_ofNat_of_lt {width n : Nat} (h : n < Nat.pow 256 width) :
    toNat (ofNat width n) = n := (toNat_ofNat width n).trans (Nat.mod_eq_of_lt h)

theorem ofNat_toNat_of_length {bs : List UInt8} {width : Nat} (h : bs.length = width) :
    ofNat width (toNat bs) = bs := h ▸ ofNat_toNat bs

theorem toNat_lt_of_length {bs : List UInt8} {width : Nat} (h : bs.length = width) :
    toNat bs < Nat.pow 256 width := h ▸ toNat_lt bs

/-- The first bytes of a list and the rest, if there are that many. -/
def split? : Nat → List UInt8 → Option (List UInt8 × List UInt8)
  | 0, s => some ([], s)
  | _ + 1, [] => none
  | n + 1, b :: s => (split? n s).map fun (bs, rest) => (b :: bs, rest)

theorem split?_eq_some_iff {n : Nat} {s bs rest : List UInt8} :
    split? n s = some (bs, rest) ↔ bs.length = n ∧ s = bs ++ rest := by
  induction n generalizing s bs with
  | zero =>
    simp only [split?, Option.some.injEq, Prod.mk.injEq]
    constructor
    · rintro ⟨rfl, rfl⟩
      exact ⟨rfl, rfl⟩
    · rintro ⟨hl, rfl⟩
      simp [List.length_eq_zero_iff.mp hl]
  | succ n ih =>
    cases s with
    | nil =>
      simp only [split?, reduceCtorEq, false_iff, not_and]
      intro hl h
      have := congrArg List.length h
      simp only [List.length_nil, List.length_append] at this
      omega
    | cons b s =>
      simp only [split?, Option.map_eq_some_iff, Prod.exists, Prod.mk.injEq]
      constructor
      · rintro ⟨cs, r, h, rfl, rfl⟩
        obtain ⟨hl, rfl⟩ := ih.mp h
        simp [hl]
      · rintro ⟨hl, h⟩
        cases bs with
        | nil => simp at hl
        | cons c cs =>
          simp only [List.cons_append, List.cons.injEq] at h
          obtain ⟨rfl, rfl⟩ := h
          exact ⟨cs, rest, ih.mpr ⟨by simpa using hl, rfl⟩, rfl, rfl⟩

theorem split?_eq_none_iff {n : Nat} {s : List UInt8} : split? n s = none ↔ s.length < n := by
  induction n generalizing s with
  | zero => simp [split?]
  | succ n ih =>
    cases s with
    | nil => simp [split?]
    | cons b s => simp [split?, ih]

/-! ## Packed truth values -/

/-- The eight bits of a byte, lowest first. -/
def bits (b : UInt8) : List Bool :=
  (List.range 8).map b.toNat.testBit

/-- The truth values packed into bytes. -/
def unpack (bs : List UInt8) : List Bool := bs.flatMap bits

/-- The byte whose lowest bits are given. -/
def byteOfBits : List Bool → Nat
  | [] => 0
  | b :: bs => b.toNat + 2 * byteOfBits bs

/-- Truth values packed eight to a byte; the last byte is filled up with zeros. -/
def pack : List Bool → List UInt8
  | [] => []
  | b :: bs => UInt8.ofNat (byteOfBits (b :: bs.take 7)) :: pack (bs.drop 7)
  termination_by bs => bs.length
  decreasing_by simp only [List.length_drop, List.length_cons]; omega

/-- The count of bytes that hold a count of bits. -/
def sizeOfBits (n : Nat) : Nat := (n + 7) / 8

end ResultChunks.Bytes
