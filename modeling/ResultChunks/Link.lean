import ResultChunks.Error
import ResultChunks.Time.Timestamp

/-!
# Download links

A link leads to the payload of one chunk until it expires. It counts as expired a buffer of seconds
early, so that a download that starts with a fresh link also ends with one. Here instants go on for
ever. A clock knows only those with a date, and `isExpired?` is what it answers: the same, as long as
the buffer ends at a date, and nothing otherwise.
-/

namespace ResultChunks

/-- A link to the payload of one chunk. -/
structure Link where
  url : String
  chunkIndex : Int
  rowOffset : Int
  rowCount : Int
  byteCount : Int
  expiration : Timestamp
  /-- Header fields that the storage asks for. -/
  headers : List (String × String)
  /-- The chunk after this one, if the server named it. -/
  nextChunk : Option Int
deriving DecidableEq, Repr, Inhabited

namespace Link

/-- Seconds before its expiration from which a link counts as expired. -/
def defaultBuffer : Int := 30

/-- Has the link expired, or will it within the buffer? -/
def isExpired (link : Link) (now : Timestamp) (buffer : Int) : Bool :=
  (now.addSecs buffer).notBefore link.expiration

/-- The same, asked of a clock that stops where there are no dates. -/
def isExpired? (link : Link) (now : Timestamp) (buffer : Int) : Option Bool :=
  (now.addSecs? buffer).map fun t => t.notBefore link.expiration

/-- **As long as the buffer ends at a date, the clock answers.** -/
theorem isExpired?_eq {now : Timestamp} {buffer : Int} (h : (now.addSecs buffer).hasDate = true)
    (link : Link) : link.isExpired? now buffer = some (link.isExpired now buffer) := by
  rw [isExpired?, Timestamp.addSecs?, if_pos h]
  rfl

/-- So it does for the next thirty thousand years, with buffers of up to seven million million
seconds. -/
theorem isExpired?_of_le {now : Timestamp} {buffer : Int} (hnow : 0 ≤ now.secs)
    (hsoon : now.secs ≤ 1000000000000) (hbuffer : 0 ≤ buffer) (hle : buffer ≤ 7000000000000)
    (link : Link) : link.isExpired? now buffer = some (link.isExpired now buffer) := by
  refine isExpired?_eq (Timestamp.hasDate_of_secs ?_ ?_) link
  · exact Int.add_nonneg hnow hbuffer
  · exact Int.add_le_add hsoon hle

/-- A buffer that ends after the last date would outlast every link. -/
theorem isExpired_of_lastDay_lt {link : Link} {now : Timestamp} {buffer : Int}
    (hlink : link.expiration.hasDate = true)
    (h : Timestamp.lastDay < (now.addSecs buffer).secs / Timestamp.perDay) :
    link.isExpired now buffer = true := by
  rw [Timestamp.hasDate, Bool.and_eq_true, decide_eq_true_eq, decide_eq_true_eq] at hlink
  have hlater : link.expiration.secs < (now.addSecs buffer).secs := by
    unfold Timestamp.perDay at hlink h
    omega
  rw [isExpired, Timestamp.notBefore, decide_eq_true hlater, Bool.true_or]

/-- A link that can be used now. -/
def isFresh (link : Link) (now : Timestamp) (buffer : Int) : Bool := !link.isExpired now buffer

end Link

end ResultChunks
