/-!
# The life of a chunk

```text
  pending -> linkResolved -> downloading -> downloaded -> consumed
  pending | linkResolved | downloading -> failed
  downloading -> linkResolved          (its link is fetched anew before another attempt)
  anything but consumed -> released    (the provider was closed)
```

`leadsTo` says which steps there are; everything that changes a status asks it first.
-/

namespace ResultChunks

/-- Where a chunk stands. -/
inductive ChunkStatus where
  | pending
  | linkResolved
  | downloading
  | downloaded
  | consumed
  | failed
  | released
deriving DecidableEq, Repr, Inhabited

namespace ChunkStatus

/-- Every status, in the order of a chunk's life. -/
def all : List ChunkStatus :=
  [pending, linkResolved, downloading, downloaded, consumed, failed, released]

/-- The name used in messages. -/
def name : ChunkStatus → String
  | pending => "Pending"
  | linkResolved => "LinkResolved"
  | downloading => "Downloading"
  | downloaded => "Downloaded"
  | consumed => "Consumed"
  | failed => "Failed"
  | released => "Released"

/-- May a chunk move from one status to the other? -/
def leadsTo : ChunkStatus → ChunkStatus → Bool
  | pending, linkResolved => true
  | pending, failed => true
  | linkResolved, linkResolved => true
  | linkResolved, downloading => true
  | linkResolved, failed => true
  | downloading, linkResolved => true
  | downloading, downloaded => true
  | downloading, failed => true
  | downloaded, consumed => true
  | consumed, released => false
  | released, released => false
  | _, released => true
  | _, _ => false

/-- A status in which no work is left for the chunk. -/
def isTerminal : ChunkStatus → Bool
  | consumed | failed | released => true
  | _ => false

/-- A status in which a chunk can still use a link. -/
def wantsLink : ChunkStatus → Bool
  | pending | linkResolved | downloading => true
  | _ => false

theorem mem_all (s : ChunkStatus) : s ∈ all := by cases s <;> decide

/-- Nothing leads on from a consumed or released chunk. -/
theorem leadsTo_eq_false_of_final {s t : ChunkStatus} (h : s = consumed ∨ s = released) :
    s.leadsTo t = false := by
  rcases h with rfl | rfl <;> cases t <;> rfl

end ChunkStatus

end ResultChunks
