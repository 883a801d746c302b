import ResultChunks.Bytes.LittleEndian
import ResultChunks.Lz4.Fault

/-!
# Blocks of an LZ4 frame

A block is a list of sequences. A sequence starts with a token of two half bytes: how many bytes to
take over as they are, and how many to copy from what was written before. A half byte of fifteen is
continued in the bytes that follow, up to the first that is not 255. A copy names its distance from
the end of the output and may overlap what it writes. The last sequence of a block has no copy.
-/

namespace ResultChunks.Lz4.Block

/-- The shortest copy. -/
def minCopy : Nat := 4

/-- The rest of a length whose half byte is full. -/
def lengthTail : List UInt8 → Except Fault (Nat × List UInt8)
  | [] => .error .badBlock
  | b :: s =>
    if b = 255 then (lengthTail s).map fun (n, s) => (n + 255, s) else .ok (b.toNat, s)

/-- A length that starts with a half byte. -/
def length (half : Nat) (s : List UInt8) : Except Fault (Nat × List UInt8) :=
  if half = 15 then (lengthTail s).map fun (n, s) => (n + 15, s) else .ok (half, s)

/-- Write bytes again that were written a distance before, one after the other. -/
def copy (distance : Nat) : Nat → Array UInt8 → Array UInt8
  | 0, out => out
  | n + 1, out => copy distance n (out.push (out.getD (out.size - distance) 0))

/-- The bytes that a sequence takes over as they are. -/
def takeLiterals (limit half : Nat) (s : List UInt8) (out : Array UInt8) :
    Except Fault (Array UInt8 × List UInt8) := do
  let (n, s) ← length half s
  match Bytes.split? n s with
  | none => .error .badBlock
  | some (bytes, rest) =>
    if limit < out.size + n then .error .badBlock else .ok (out ++ bytes.toArray, rest)

/-- The copy of a sequence. -/
def takeCopy (limit half : Nat) (s : List UInt8) (out : Array UInt8) :
    Except Fault (Array UInt8 × List UInt8) :=
  match s with
  | lo :: hi :: s => do
    let (n, s) ← length half s
    let distance := lo.toNat + 256 * hi.toNat
    let n := n + minCopy
    if distance = 0 || out.size < distance || limit < out.size + n then .error .badBlock
    else .ok (copy distance n out, s)
  | _ => .error .badBlock

/-- Expand sequences. A sequence is at least one byte, so the input bounds their number. -/
def sequences (limit : Nat) : Nat → List UInt8 → Array UInt8 → Except Fault (Array UInt8)
  | 0, _, _ => .error .badBlock
  | _ + 1, [], _ => .error .badBlock
  | fuel + 1, token :: s, out => do
    let (out, s) ← takeLiterals limit (token.toNat / 16) s out
    if s.isEmpty then .ok out
    else
      let (out, s) ← takeCopy limit (token.toNat % 16) s out
      sequences limit fuel s out

/-- Expand a block behind some output, which may not grow beyond `limit`. -/
def expand (limit : Nat) (block : List UInt8) (out : Array UInt8) : Except Fault (Array UInt8) :=
  sequences limit (block.length + 1) block out

end ResultChunks.Lz4.Block
