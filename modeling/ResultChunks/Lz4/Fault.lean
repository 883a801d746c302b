/-!
# What can be wrong with an LZ4 frame
-/

namespace ResultChunks.Lz4

/-- Why bytes are no LZ4 frame that can be read. -/
inductive Fault where
  /-- The first four bytes name no frame. -/
  | badMagic
  /-- The frame is one to be skipped, or has the older layout. -/
  | otherFrame
  /-- The version is not the one known. -/
  | version
  /-- A reserved bit is set. -/
  | reservedBits
  /-- The block size is none of the defined ones. -/
  | blockSize
  /-- The frame needs a dictionary. -/
  | dictionary
  /-- The checksum of the header differs. -/
  | headerChecksum
  /-- The checksum of a block differs. -/
  | blockChecksum
  /-- The checksum of the content differs. -/
  | contentChecksum
  /-- The content is not as long as the header says. -/
  | contentSize
  /-- A block is larger than the frame allows. -/
  | blockTooBig
  /-- The input ends where it must go on. -/
  | truncated
  /-- A block is no sequence of literals and copies. -/
  | badBlock
deriving DecidableEq, Repr, Inhabited

/-- The wording of a fault. -/
def Fault.message : Fault → String
  | badMagic => "the magic number is wrong"
  | otherFrame => "the frame has another layout"
  | version => "the version is unknown"
  | reservedBits => "reserved bits are set"
  | blockSize => "the block size is undefined"
  | dictionary => "the frame needs a dictionary"
  | headerChecksum => "the header checksum differs"
  | blockChecksum => "a block checksum differs"
  | contentChecksum => "the content checksum differs"
  | contentSize => "the content size differs"
  | blockTooBig => "a block is too big"
  | truncated => "the frame ends too early"
  | badBlock => "a block cannot be expanded"

end ResultChunks.Lz4
