import ResultChunks.Log.Entry
import ResultChunks.Options.Config
import ResultChunks.Text.Blank

/-!
# Which entries are kept

A filter is a list of directives, each a bound on levels for topics whose path starts with a target.
Of the directives that fit an entry the one with the longest target decides; an entry that none fits
is dropped. The filter comes from the configured level, else from the environment, else it keeps
warnings of this program.
-/

namespace ResultChunks.Log

/-- A bound on the levels of some topics: the number of levels that are kept. -/
structure Directive where
  /-- The start of the paths that are meant; all of them if there is none. -/
  target : Option String
  bound : Nat
deriving DecidableEq, Repr, Inhabited

namespace Directive

/-- The target of this program's own topics. -/
def ownTarget : String := "databricks_cloudfetch"

/-- The bound that a level's name or number stands for. -/
def bound? (s : String) : Option Nat :=
  let word := Text.lowerAscii s
  if word = "off" || word = "0" then some 0
  else if word = "error" || word = "1" then some 1
  else if word = "warn" || word = "2" then some 2
  else if word = "info" || word = "3" then some 3
  else if word = "debug" || word = "4" then some 4
  else if word = "trace" || word = "5" then some 5
  else none

/-- A character that a target may hold. -/
def inTarget (c : Char) : Bool := c.isAlphanum || c = '_' || c = ':' || c = '-'

/-- Read a directive: a level, a target, or both with an equals sign between them. -/
def parse? (s : String) : Option Directive :=
  match bound? s with
  | some bound => some ⟨none, bound⟩
  | none =>
    let target := s.toList.takeWhile inTarget
    if target.isEmpty then none
    else
      match s.toList.drop target.length with
      | [] => some ⟨some (String.ofList target), 5⟩
      | ['='] => some ⟨some (String.ofList target), 5⟩
      | '=' :: level =>
        (bound? (String.ofList level)).map fun bound => ⟨some (String.ofList target), bound⟩
      | _ => none

/-- Does a directive speak of a topic? -/
def fits (d : Directive) (topic : Topic) : Bool :=
  d.target.all fun t => t.toList.isPrefixOf topic.path.toList

/-- How exactly a directive says which topics it means. -/
def weight (d : Directive) : Nat := d.target.elim 0 fun t => t.length + 1

end Directive

/-- A list of directives. -/
structure Filter where
  directives : List Directive
deriving DecidableEq, Repr, Inhabited

namespace Filter

/-- Keep errors alone. -/
def errors : Filter := ⟨[⟨none, 1⟩]⟩

/-- Keep this program's warnings and errors. -/
def ownWarnings : Filter := ⟨[⟨some Directive.ownTarget, 2⟩]⟩

/-- A filter of directives; without any, errors are kept. -/
def ofDirectives (ds : List Directive) : Filter := if ds.isEmpty then errors else ⟨ds⟩

/-- The pieces of a text between commas, without the empty ones. -/
def pieces (s : String) : List String := (s.splitOn ",").filter fun p => !p.isEmpty

/-- Read directives and pass over what is none. -/
def ofTextLossy (s : String) : Filter := ofDirectives ((pieces s).filterMap Directive.parse?)

/-- Read directives, all of which have to be some. -/
def ofText? (s : String) : Option Filter := ((pieces s).mapM Directive.parse?).map ofDirectives

/-- The better of two directives: the one with the longer target, else the later one. -/
def better (best : Option Directive) (d : Directive) : Option Directive :=
  match best with
  | none => some d
  | some b => if b.weight ≤ d.weight then some d else some b

/-- The directive that decides about a topic. -/
def deciding (f : Filter) (topic : Topic) : Option Directive :=
  (f.directives.filter fun d => d.fits topic).foldl better none

/-- Is an entry kept? -/
def keeps (f : Filter) (e : Entry) : Bool :=
  (f.deciding e.topic).any fun d => e.level.rank < d.bound

end Filter

end ResultChunks.Log

namespace ResultChunks.LogConfig

open Log

/-- No log is wanted at all. -/
def isOff (c : LogConfig) : Bool := c.level.any fun l => Text.lowerAscii l == "off"

/-- The filter that a configuration and the environment ask for; none if there is to be no log. -/
def filter (c : LogConfig) (environment : Option String) : Option Filter :=
  if c.isOff then none
  else
    match c.level with
    | some level => some (Filter.ofTextLossy s!"{Directive.ownTarget}={level}")
    | none => some ((environment.bind Filter.ofText?).getD Filter.ownWarnings)

end ResultChunks.LogConfig
