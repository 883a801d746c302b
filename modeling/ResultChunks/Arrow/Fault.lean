/-!
# What can be wrong with an Arrow stream
-/

namespace ResultChunks.Arrow

/-- Why bytes are no Arrow stream that can be read. -/
inductive Fault where
  /-- The input ends where it must go on. -/
  | truncated
  /-- A message is no well-formed table of fields. -/
  | badMessage
  /-- A schema stands where none may, or another message where it must. -/
  | unexpectedMessage
  /-- The stream uses something this reader does not know. -/
  | unsupported (what : String)
  /-- A buffer lies outside the body of its message. -/
  | badBuffer
  /-- A column's buffers do not hold values of its type. -/
  | badColumn (column : String)
  /-- The columns form no batch. -/
  | noBatch
deriving DecidableEq, Repr, Inhabited

/-- The wording of a fault. -/
def Fault.message : Fault → String
  | truncated => "the stream ends too early"
  | badMessage => "a message is malformed"
  | unexpectedMessage => "a message is out of place"
  | unsupported what => s!"{what} is not supported"
  | badBuffer => "a buffer lies outside its message"
  | badColumn column => s!"the buffers of column '{column}' do not fit its type"
  | noBatch => "the columns do not form a batch"

end ResultChunks.Arrow
