import ResultChunks.Bytes.Checksum
import ResultChunks.Lz4.Block

/-!
# LZ4 frames

```text
  magic | flags | block size | [content size] | header checksum
  per block: size, the highest bit set for plain bytes | data | [checksum]
  end mark, a size of zero | [content checksum]
```

Only the first frame is read; what follows its end mark is left alone. A stream may also end where a
block should start, or right after the magic number, and a block that expands to nothing ends the
frame too; then neither the content size nor the content checksum is looked at. The older layout has
blocks alone, each a size and its data.
-/

namespace ResultChunks.Lz4

/-- What the header of a frame says. -/
structure Header where
  /-- The most bytes that a block expands to. -/
  blockSize : Nat
  /-- Copies may reach back into earlier blocks. -/
  linked : Bool
  blockChecksums : Bool
  contentChecksum : Bool
  contentSize : Option Nat
deriving DecidableEq, Repr, Inhabited

namespace Header

/-- The number that a frame starts with. -/
def magic : Nat := 0x184d2204

/-- The number that a frame of the older layout starts with. -/
def olderMagic : Nat := 0x184c2102

/-- A frame of the older layout. -/
def older : Header := ⟨8 * 1024 * 1024, false, false, false, none⟩

/-- Is a bit of a byte set? -/
def bit (b : UInt8) (i : Nat) : Bool := b.toNat.testBit i

/-- The block size that a number stands for. -/
def blockSizeOf? : Nat → Option Nat
  | 4 => some (64 * 1024)
  | 5 => some (256 * 1024)
  | 6 => some (1024 * 1024)
  | 7 => some (4 * 1024 * 1024)
  | _ => none

/-- Read a count of bytes, or fail. -/
def take (n : Nat) (s : List UInt8) : Except Fault (List UInt8 × List UInt8) :=
  match Bytes.split? n s with
  | some r => .ok r
  | none => .error .truncated

/-- Read a checksum and compare it. -/
def checked (bytes : List UInt8) (fault : Fault) (s : List UInt8) :
    Except Fault (List UInt8) := do
  let (sum, s) ← take 4 s
  if Bytes.toNat sum = (Bytes.Checksum.of bytes).toNat then .ok s else .error fault

/-- Read the header behind the magic number. -/
def readFields (s : List UInt8) : Except Fault (Header × List UInt8) :=
  match s with
  | flags :: sizes :: rest => do
    let sized := bit flags 3
    let (count, rest') ← take (if sized then 8 else 0) rest
    let (_, rest') ← take (if bit flags 0 then 4 else 0) rest'
    let (sum, after) ← take 1 rest'
    if flags.toNat / 64 ≠ 1 then .error .version
    else if bit flags 1 || bit sizes 7 || sizes.toNat % 16 ≠ 0 then .error .reservedBits
    else
      match blockSizeOf? (sizes.toNat / 16) with
      | none => .error .blockSize
      | some blockSize =>
        let described := s.take (s.length - rest'.length)
        let expected := (Bytes.Checksum.of described).toNat / 256 % 256
        if Bytes.toNat sum ≠ expected then .error .headerChecksum
        else if bit flags 0 then .error .dictionary
        else
          .ok ({ blockSize, linked := !bit flags 5, blockChecksums := bit flags 4
                 contentChecksum := bit flags 2
                 contentSize := if sized then some (Bytes.toNat count) else none }, after)
  | _ => .error .truncated

/-- Read the header of a frame; `none` when the stream holds a magic number at most. -/
def read (s : List UInt8) : Except Fault (Option (Header × List UInt8)) :=
  if s.isEmpty then .ok none
  else do
    let (number, s) ← take 4 s
    let number := Bytes.toNat number
    if number = olderMagic then .ok (some (older, s))
    else if s.isEmpty then .ok none
    else if number / 16 = 0x184d2a5 then .error .otherFrame
    else if number ≠ magic then .error .badMagic
    else (readFields s).map some

end Header

namespace Frame

/-- What a block's size says: the end, or data in plain or compressed form. -/
inductive BlockHead where
  | finish
  | plain (size : Nat)
  | packed (size : Nat)

/-- What a block's size says. -/
def blockHead (n : Nat) : BlockHead :=
  if n = 0 then .finish else if Nat.pow 2 31 ≤ n then .plain (n - Nat.pow 2 31) else .packed n

/-- The data of a block, checked if the frame asks for it. -/
def blockData (h : Header) (size : Nat) (s : List UInt8) :
    Except Fault (List UInt8 × List UInt8) := do
  if h.blockSize < size then .error .blockTooBig
  else
    let (data, s) ← Header.take size s
    let s ← if h.blockChecksums then Header.checked data .blockChecksum s else .ok s
    .ok (data, s)

/-- Expand a block behind the output so far. -/
def unpack (h : Header) (data : List UInt8) (out : Array UInt8) : Except Fault (Array UInt8) :=
  if h.linked then Block.expand (out.size + h.blockSize) data out
  else (Block.expand h.blockSize data #[]).map (out ++ ·)

/-- The checks at the end mark. -/
def finish (h : Header) (s : List UInt8) (out : Array UInt8) : Except Fault (Array UInt8) := do
  if h.contentSize.any (· ≠ out.size) then .error .contentSize
  else
    let _ ← if h.contentChecksum then Header.checked out.toList .contentChecksum s else .ok s
    .ok out

/-- Read blocks. A block is at least four bytes, so the input bounds their number. -/
def blocks (h : Header) : Nat → List UInt8 → Array UInt8 → Except Fault (Array UInt8)
  | 0, _, out => .ok out
  | fuel + 1, s, out =>
    match Bytes.split? 4 s with
    | none => .ok out
    | some (head, s) =>
      match blockHead (Bytes.toNat head) with
      | .finish => finish h s out
      | .plain size => do
        let (data, s) ← blockData h size s
        if data.isEmpty then .ok out else blocks h fuel s (out ++ data.toArray)
      | .packed size => do
        let (data, s) ← blockData h size s
        let grown ← unpack h data out
        if grown.size = out.size then .ok out else blocks h fuel s grown

/-- The bytes that a stream stands for. -/
def decode (bytes : List UInt8) : Except Fault (List UInt8) := do
  match ← Header.read bytes with
  | none => .ok []
  | some (h, s) => (blocks h (s.length + 1) s #[]).map Array.toList

end Frame

end ResultChunks.Lz4
