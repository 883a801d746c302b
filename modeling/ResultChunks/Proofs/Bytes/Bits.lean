import Mathlib.Algebra.Group.Nat.Defs
import ResultChunks.Bytes.LittleEndian

/-!
# Bitmaps bit by bit

Truth value `i` of a bitmap is bit `i % 8` of byte `i / 8`, counted from the lowest bit. Packing and
unpacking go through the list eight values at a time, so what they do to a single value is shown by
induction on the bytes, with the first eight values as one case and the rest as the other.
-/

namespace ResultChunks.Bytes

/-- A truth value of a bitmap. Beyond its end all are false. -/
def bit (bitmap : List UInt8) (i : Nat) : Bool := (bitmap.getD (i / 8) 0).toNat.testBit (i % 8)

theorem bit_cons_of_lt {b : UInt8} {bs : List UInt8} {i : Nat} (h : i < 8) :
    bit (b :: bs) i = b.toNat.testBit i := by
  have hdiv : i / 8 = 0 := by omega
  have hmod : i % 8 = i := by omega
  rw [bit, hdiv, hmod]
  rfl

theorem bit_cons_of_le {b : UInt8} {bs : List UInt8} {i : Nat} (h : 8 ≤ i) :
    bit (b :: bs) i = bit bs (i - 8) := by
  have hdiv : i / 8 = (i - 8) / 8 + 1 := by omega
  have hmod : i % 8 = (i - 8) % 8 := by omega
  rw [bit, bit, hdiv, hmod]
  rfl

theorem length_unpack (bs : List UInt8) : (unpack bs).length = 8 * bs.length := by
  induction bs with
  | nil => rfl
  | cons b bs ih =>
      have hb : (bits b).length = 8 := by simp [bits]
      rw [unpack, List.flatMap_cons, List.length_append, hb, ← unpack, ih, List.length_cons]
      omega

theorem getElem?_unpack {bs : List UInt8} {i : Nat} (h : i < 8 * bs.length) :
    (unpack bs)[i]? = some (bit bs i) := by
  induction bs generalizing i with
  | nil => exact absurd h (Nat.not_lt_zero i)
  | cons b bs ih =>
      have hb : (bits b).length = 8 := by simp [bits]
      rw [unpack, List.flatMap_cons, ← unpack]
      rcases Nat.lt_or_ge i 8 with hi | hi
      · rw [List.getElem?_append_left (by omega), bit_cons_of_lt hi]
        simp [bits, hi]
      · rw [List.length_cons] at h
        rw [List.getElem?_append_right (by omega), hb, ih (by omega), bit_cons_of_le hi]

theorem byteOfBits_lt (l : List Bool) : byteOfBits l < 2 ^ l.length := by
  induction l with
  | nil => exact Nat.one_pos
  | cons b l ih =>
      have hb : b.toNat ≤ 1 := Bool.toNat_le b
      rw [byteOfBits, List.length_cons, Nat.pow_succ]
      omega

theorem testBit_byteOfBits (l : List Bool) (i : Nat) :
    (byteOfBits l).testBit i = l.getD i false := by
  induction l generalizing i with
  | nil => simp [byteOfBits]
  | cons b l ih =>
      cases i with
      | zero => cases b <;> simp [byteOfBits, Nat.testBit_zero]
      | succ i =>
          have hdiv : (b.toNat + 2 * byteOfBits l) / 2 = byteOfBits l := by
            have hb : b.toNat ≤ 1 := Bool.toNat_le b
            omega
          rw [byteOfBits, Nat.testBit_succ, hdiv, ih]
          rfl

theorem length_pack (l : List Bool) : (pack l).length = sizeOfBits l.length := by
  induction l using pack.induct with
  | case1 => rw [pack]; rfl
  | case2 b l ih =>
      rw [pack, List.length_cons, ih]
      simp only [sizeOfBits, List.length_drop, List.length_cons]
      omega

/-- **A packed truth value stands where it is looked for**, and what is left of the last byte is
zero. -/
theorem bit_pack (l : List Bool) (i : Nat) : bit (pack l) i = l.getD i false := by
  induction l using pack.induct generalizing i with
  | case1 => simp [pack, bit]
  | case2 b l ih =>
      rw [pack]
      have hbyte : (UInt8.ofNat (byteOfBits (b :: l.take 7))).toNat =
          byteOfBits (b :: l.take 7) := by
        have hlen : (b :: l.take 7).length ≤ 8 := by
          rw [List.length_cons, List.length_take]
          omega
        exact Nat.mod_eq_of_lt
          (Nat.lt_of_lt_of_le (byteOfBits_lt _) (Nat.pow_le_pow_right Nat.two_pos hlen))
      rcases Nat.lt_or_ge i 8 with hi | hi
      · rw [bit_cons_of_lt hi, hbyte, testBit_byteOfBits]
        cases i with
        | zero => rfl
        | succ i =>
            have hi : i < 7 := by omega
            simp [List.getD, hi]
      · rw [bit_cons_of_le hi, ih]
        obtain ⟨j, rfl⟩ : ∃ j, i = j + 8 := ⟨i - 8, by omega⟩
        simp [List.getD, List.getElem?_drop, Nat.add_comm 7 j]

/-- A byte is known by its bits. -/
theorem eq_of_testBit {b c : UInt8} (h : ∀ i < 8, b.toNat.testBit i = c.toNat.testBit i) : b = c := by
  refine UInt8.toNat_inj.1 (Nat.eq_of_testBit_eq fun i => ?_)
  rcases Nat.lt_or_ge i 8 with hi | hi
  · exact h i hi
  · have hpow : 2 ^ 8 ≤ 2 ^ i := Nat.pow_le_pow_right Nat.two_pos hi
    rw [Nat.testBit_lt_two_pow (Nat.lt_of_lt_of_le b.toNat_lt hpow),
      Nat.testBit_lt_two_pow (Nat.lt_of_lt_of_le c.toNat_lt hpow)]

/-- **A bitmap is known by its length and its truth values**, those that fill up its last byte
included. -/
theorem eq_of_bit {xs ys : List UInt8} (hlen : xs.length = ys.length)
    (hbit : ∀ i, bit xs i = bit ys i) : xs = ys := by
  induction xs generalizing ys with
  | nil => exact (List.length_eq_zero_iff.1 hlen.symm).symm
  | cons x xs ih =>
      cases ys with
      | nil => cases hlen
      | cons y ys =>
          have hhead : x = y := by
            refine eq_of_testBit fun i hi => ?_
            have h := hbit i
            rwa [bit_cons_of_lt hi, bit_cons_of_lt hi] at h
          have htail : xs = ys := by
            refine ih (Nat.succ.inj hlen) fun i => ?_
            have h := hbit (i + 8)
            rwa [bit_cons_of_le (Nat.le_add_left 8 i), bit_cons_of_le (Nat.le_add_left 8 i),
              Nat.add_sub_cancel] at h
          rw [hhead, htail]

end ResultChunks.Bytes
