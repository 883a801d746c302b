/-!
# A checksum of 32 bits

Four lanes of 32 bits take up the input in stripes of sixteen bytes; what is left over is mixed in
word by word and byte by byte, and a last scramble spreads every bit over the whole word. Sums and
products are those of 32 bits.
-/

namespace ResultChunks.Bytes.Checksum

/-- The multipliers of the scheme. -/
def prime1 : UInt32 := 0x9e3779b1

/-- The multiplier of an input word in a lane. -/
def prime2 : UInt32 := 0x85ebca77

/-- The multiplier of an input word outside a stripe. -/
def prime3 : UInt32 := 0xc2b2ae3d

/-- The multiplier after an input word outside a stripe. -/
def prime4 : UInt32 := 0x27d4eb2f

/-- The multiplier of a single byte. -/
def prime5 : UInt32 := 0x165667b1

/-- Turn the bits of a word to the left, by between 1 and 31 places. -/
def rotate (w n : UInt32) : UInt32 := (w <<< n) ||| (w >>> (32 - n))

/-- The words of some bytes, lowest byte first, and the bytes of an unfinished word. -/
def words : List UInt8 → List UInt32 × List UInt8
  | a :: b :: c :: d :: rest =>
    let w := a.toUInt32 ||| (b.toUInt32 <<< 8) ||| (c.toUInt32 <<< 16) ||| (d.toUInt32 <<< 24)
    let (ws, left) := words rest
    (w :: ws, left)
  | left => ([], left)

/-- The four lanes. -/
structure Lanes where
  a : UInt32
  b : UInt32
  c : UInt32
  d : UInt32

/-- The lanes before the first stripe. -/
def Lanes.initial : Lanes := ⟨prime1 + prime2, prime2, 0, 0 - prime1⟩

/-- A lane takes up a word. -/
def absorb (lane w : UInt32) : UInt32 := rotate (lane + w * prime2) 13 * prime1

/-- The lanes joined into one word. -/
def Lanes.join (l : Lanes) : UInt32 := rotate l.a 1 + rotate l.b 7 + rotate l.c 12 + rotate l.d 18

/-- Take up all whole stripes; the result is the lanes and the words left over. -/
def stripes (l : Lanes) : List UInt32 → Lanes × List UInt32
  | a :: b :: c :: d :: rest =>
    stripes ⟨absorb l.a a, absorb l.b b, absorb l.c c, absorb l.d d⟩ rest
  | rest => (l, rest)

/-- Mix in a word outside a stripe. -/
def mixWord (h w : UInt32) : UInt32 := rotate (h + w * prime3) 17 * prime4

/-- Mix in a single byte. -/
def mixByte (h : UInt32) (b : UInt8) : UInt32 := rotate (h + b.toUInt32 * prime5) 11 * prime1

/-- Spread every bit over the whole word. -/
def scramble (h : UInt32) : UInt32 :=
  let h := (h ^^^ (h >>> 15)) * prime2
  let h := (h ^^^ (h >>> 13)) * prime3
  h ^^^ (h >>> 16)

/-- The checksum of some bytes. -/
def of (bytes : List UInt8) : UInt32 :=
  let (ws, left) := words bytes
  let (lanes, ws) := stripes .initial ws
  let start := if bytes.length < 16 then prime5 else lanes.join
  scramble (left.foldl mixByte (ws.foldl mixWord (start + UInt32.ofNat bytes.length)))

end ResultChunks.Bytes.Checksum
