/-!
# Classes of failure

Failures worth another attempt fall into four classes. Each class has a budget of its own.
-/

namespace ResultChunks

/-- A kind of failure after which another attempt may help. -/
inductive FailureClass where
  /-- The server says it cannot answer now. -/
  | temporarilyUnavailable
  /-- The server says it was asked too often. -/
  | rateLimited
  /-- Any other failure on the server's side. -/
  | serverError
  /-- The network failed. -/
  | connection
deriving DecidableEq, Repr, Inhabited

namespace FailureClass

/-- Every class, in the order in which budgets are listed. -/
def all : List FailureClass := [temporarilyUnavailable, rateLimited, serverError, connection]

/-- The name used in messages. -/
def name : FailureClass → String
  | temporarilyUnavailable => "TemporarilyUnavailable"
  | rateLimited => "RateLimited"
  | serverError => "ServerError"
  | connection => "Connection"

theorem mem_all (c : FailureClass) : c ∈ all := by cases c <;> decide

end FailureClass

end ResultChunks
