/-!
# UTF-8

Text is read from bytes when they are well formed. When they are not, the fault names the first
byte that no longer belongs to a well-formed text: either a sequence of one to three bytes that
cannot be continued, or a sequence that the end of the input cuts short.
-/

namespace ResultChunks.Utf8

/-- Why bytes are no text. -/
inductive Fault where
  /-- The bytes at a position are no character, and `length` of them are to blame. -/
  | invalid (length position : Nat)
  /-- The last character is cut short. -/
  | incomplete (position : Nat)
deriving DecidableEq, Repr, Inhabited

/-- The wording of a fault. -/
def Fault.message : Fault → String
  | .invalid length position =>
    s!"invalid utf-8 sequence of {length} bytes from index {position}"
  | .incomplete position => s!"incomplete utf-8 byte sequence from index {position}"

/-- A byte that continues a character. -/
def isContinuation (b : UInt8) : Bool := 0x80 ≤ b && b ≤ 0xbf

/-- What a first byte asks of the bytes after it: how many, and the range of the first of them. -/
def following (b : UInt8) : Option (Nat × UInt8 × UInt8) :=
  if b < 0x80 then some (0, 0, 0)
  else if 0xc2 ≤ b && b ≤ 0xdf then some (1, 0x80, 0xbf)
  else if b = 0xe0 then some (2, 0xa0, 0xbf)
  else if b = 0xed then some (2, 0x80, 0x9f)
  else if 0xe1 ≤ b && b ≤ 0xef then some (2, 0x80, 0xbf)
  else if b = 0xf0 then some (3, 0x90, 0xbf)
  else if b = 0xf4 then some (3, 0x80, 0x8f)
  else if 0xf1 ≤ b && b ≤ 0xf3 then some (3, 0x80, 0xbf)
  else none

/-- How a character that starts at `position` goes on: `count` bytes are still due and `seen` were
read. The result is the rest, or the fault. -/
def continued (position : Nat) : Nat → Nat → List UInt8 → Except Fault (List UInt8)
  | 0, _, bytes => .ok bytes
  | _ + 1, _, [] => .error (.incomplete position)
  | n + 1, seen, b :: bytes =>
    if isContinuation b then continued position n (seen + 1) bytes
    else .error (.invalid seen position)

/-- Leave out one character. -/
def skipChar (position : Nat) : List UInt8 → Except Fault (List UInt8)
  | [] => .ok []
  | b :: bytes =>
    match following b with
    | none => .error (.invalid 1 position)
    | some (0, _, _) => .ok bytes
    | some (n + 1, lo, hi) =>
      match bytes with
      | [] => .error (.incomplete position)
      | c :: rest =>
        if lo ≤ c && c ≤ hi then continued position n 2 rest else .error (.invalid 1 position)

/-- The first fault of a list of bytes. At most `fuel` characters are looked at. -/
def findFault : Nat → Nat → List UInt8 → Option Fault
  | 0, _, _ => none
  | _ + 1, _, [] => none
  | fuel + 1, position, bytes =>
    match skipChar position bytes with
    | .error fault => some fault
    | .ok rest => findFault fuel (position + (bytes.length - rest.length)) rest

/-- The first fault of a list of bytes, if it has one. -/
def fault? (bytes : List UInt8) : Option Fault := findFault bytes.length 0 bytes

/-- The text that bytes stand for, or the first fault. -/
def decode (bytes : List UInt8) : Except Fault String :=
  match String.fromUTF8? ⟨bytes.toArray⟩ with
  | some s => .ok s
  | none => .error ((fault? bytes).getD (.incomplete bytes.length))

/-- Read text up to `fuel` characters; each stretch of bytes that is to blame for a fault stands for
one replacement character. -/
def lossyChars : Nat → List UInt8 → List Char
  | 0, _ => []
  | _ + 1, [] => []
  | fuel + 1, bytes =>
    match skipChar 0 bytes with
    | .ok rest =>
      let char := bytes.take (bytes.length - rest.length)
      ((String.fromUTF8? ⟨char.toArray⟩).getD "").toList ++ lossyChars fuel rest
    | .error (.invalid length _) => Char.ofNat 0xfffd :: lossyChars fuel (bytes.drop length)
    | .error (.incomplete _) => [Char.ofNat 0xfffd]

/-- The text that bytes stand for, with a replacement character for what is no text. -/
def decodeLossy (bytes : List UInt8) : String :=
  match String.fromUTF8? ⟨bytes.toArray⟩ with
  | some s => s
  | none => String.ofList (lossyChars bytes.length bytes)

/-- The bytes of a text. -/
def encode (s : String) : List UInt8 := s.toUTF8.data.toList

/-- Text comes back from its bytes. -/
theorem decode_encode (s : String) : decode (encode s) = .ok s := by
  have h : (⟨(encode s).toArray⟩ : ByteArray) = s.toUTF8 := by simp [encode]
  have hv : String.fromUTF8? s.toUTF8 = some s := by
    unfold String.fromUTF8?
    rw [dif_pos (show s.toUTF8.IsValidUTF8 from s.isValidUTF8)]
    rfl
  simp only [decode, h, hv]

/-- No other bytes stand for a text. -/
theorem decode_eq_ok_iff {bytes : List UInt8} {s : String} :
    decode bytes = .ok s ↔ bytes = encode s := by
  constructor
  · intro h
    unfold decode at h
    split at h
    · rename_i t ht
      obtain rfl := Except.ok.inj h
      unfold String.fromUTF8? at ht
      split at ht
      · obtain rfl := Option.some.inj ht
        rfl
      · exact nomatch ht
    · exact nomatch h
  · rintro rfl
    exact decode_encode s

end ResultChunks.Utf8
