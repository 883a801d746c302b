import ResultChunks.Http.Host

/-!
# Addresses

An address is read into its parts and written in one form: the scheme and host in small letters, the
number behind the host only when it is not the scheme's own, the path without dot segments, and
every character that may not stand in a part as bytes behind percent signs. Credentials in an
address are left out of it. The query of an address is a secret; `redacted` is the form that
messages may show.
-/

namespace ResultChunks.Http

/-- Why a text is no address of a host. -/
inductive UrlFault where
  /-- The text has no scheme. -/
  | noScheme
  /-- Addresses of this scheme need no host, and this one has none. -/
  | noHost
  /-- The host is left out where it must not be. -/
  | emptyHost
  /-- The host is none. -/
  | badHost
  /-- What stands behind the host is no number below 65536. -/
  | badPort
deriving DecidableEq, Repr, Inhabited

/-- The wording of a fault. -/
def UrlFault.message : UrlFault → String
  | noScheme => "relative URL without a base"
  | noHost => "URL scheme is not allowed"
  | emptyHost => "empty host"
  | badHost => "invalid host"
  | badPort => "invalid number behind the host"

/-- An address in its parts, each in its written form. -/
structure Url where
  scheme : String
  host : String
  /-- The number behind the host, if it is not the scheme's own. -/
  portNumber : Option Nat
  path : String
  query : Option String
  fragment : Option String
deriving DecidableEq, Repr, Inhabited

namespace Url

/-- The number that a scheme stands for. -/
def defaultPort? (scheme : String) : Option Nat :=
  if scheme = "http" || scheme = "ws" then some 80
  else if scheme = "https" || scheme = "wss" then some 443
  else if scheme = "ftp" then some 21
  else none

/-- Schemes whose addresses follow the rules of the web. -/
def isSpecial (scheme : String) : Bool := (defaultPort? scheme).isSome

/-- Addresses that a client of the web can ask. -/
def isWeb (u : Url) : Bool := u.scheme == "http" || u.scheme == "https"

/-! ## Characters -/

/-- Control characters, spaces and all but ASCII never stand for themselves. -/
def isPlain (c : Char) : Bool := 0x20 < c.toNat && c.toNat < 0x7f

/-- Characters of a path that are written as bytes. -/
def pathEscapes (c : Char) : Bool := !isPlain c || "\"#<>?`\x7b\x7d".toList.contains c

/-- Characters of a query that are written as bytes. -/
def queryEscapes (special : Bool) (c : Char) : Bool :=
  !isPlain c || "\"#<>".toList.contains c || (special && c = '\'')

/-- Characters of a fragment that are written as bytes. -/
def fragmentEscapes (c : Char) : Bool := !isPlain c || "\"<>`".toList.contains c

/-- A digit in base sixteen. -/
def hexDigit (n : Nat) : Char :=
  if n < 10 then Char.ofNat ('0'.toNat + n) else Char.ofNat ('A'.toNat + (n - 10))

/-- A byte behind a percent sign. -/
def escapeByte (b : UInt8) : List Char := ['%', hexDigit (b.toNat / 16), hexDigit (b.toNat % 16)]

/-- Write characters, those that `escapes` names as bytes. -/
def encode (escapes : Char → Bool) (cs : List Char) : String :=
  String.ofList (cs.flatMap fun c =>
    if escapes c then (Utf8.encode (String.singleton c)).flatMap escapeByte else [c])

/-! ## Paths -/

/-- A segment that stands for its own place. -/
def isSingleDot (s : List Char) : Bool :=
  let t := String.ofList (s.map Char.toLower)
  t == "." || t == "%2e"

/-- A segment that leads back to the place above. -/
def isDoubleDot (s : List Char) : Bool :=
  let t := String.ofList (s.map Char.toLower)
  t == ".." || t == ".%2e" || t == "%2e." || t == "%2e%2e"

/-- Split a path into segments. -/
def segments (special : Bool) : List Char → List (List Char)
  | [] => [[]]
  | c :: cs =>
    if c = '/' || (special && c = '\\') then [] :: segments special cs
    else
      match segments special cs with
      | [] => [[c]]
      | s :: ss => (c :: s) :: ss

/-- Walk along segments; `done` holds the ones kept, the last one first. -/
def walk (done : List (List Char)) : List (List Char) → List (List Char)
  | [] => done.reverse
  | [s] =>
    if isDoubleDot s then ([] :: done.tail).reverse
    else if isSingleDot s then ([] :: done).reverse
    else (s :: done).reverse
  | s :: ss =>
    if isDoubleDot s then walk done.tail ss
    else if isSingleDot s then walk done ss
    else walk (s :: done) ss

/-- The written form of a path behind its host. -/
def writePath (special : Bool) (cs : List Char) : String :=
  match cs with
  | [] => if special then "/" else ""
  | c :: rest =>
    let rest := if c = '/' || (special && c = '\\') then rest else c :: rest
    String.join ((walk [] (segments special rest)).map fun s => "/" ++ encode pathEscapes s)

/-! ## Reading -/

/-- Leave out blanks and controls at the ends, and tabs and line ends everywhere. -/
def clean (cs : List Char) : List Char :=
  let isEdge (c : Char) : Bool := c.toNat ≤ 0x20
  let cs := ((cs.dropWhile isEdge).reverse.dropWhile isEdge).reverse
  cs.filter fun c => c ≠ '\t' && c ≠ '\n' && c ≠ '\r'

/-- An ASCII letter. -/
def isLetter (c : Char) : Bool := ('a' ≤ c && c ≤ 'z') || ('A' ≤ c && c ≤ 'Z')

/-- A character of a scheme behind the first. -/
def inScheme (c : Char) : Bool :=
  isLetter c || Text.isDigit c || c = '+' || c = '-' || c = '.'

/-- The scheme and what follows its colon. -/
def splitScheme? (cs : List Char) : Option (String × List Char) :=
  let name := cs.takeWhile inScheme
  match cs.drop name.length with
  | ':' :: rest =>
    if name.head?.any isLetter then some (String.ofList (name.map Char.toLower), rest) else none
  | _ => none

/-- What follows the slashes before a host, if a host can follow. -/
def splitSlashes? (special : Bool) (cs : List Char) : Option (List Char) :=
  if special then some (cs.dropWhile fun c => c = '/' || c = '\\')
  else
    match cs with
    | '/' :: '/' :: rest => some rest
    | _ => none

/-- Leave out credentials: everything up to the last `@`. -/
def dropCredentials (cs : List Char) : List Char :=
  if cs.contains '@' then (cs.reverse.takeWhile (· ≠ '@')).reverse else cs

/-- Cut a host and what follows it at the first colon outside brackets. -/
def splitPort : Bool → List Char → List Char × Option (List Char)
  | _, [] => ([], none)
  | inside, c :: cs =>
    if c = ':' && !inside then ([], some cs)
    else
      let inside := if c = '[' then true else if c = ']' then false else inside
      let (host, digits) := splitPort inside cs
      (c :: host, digits)

/-- The number behind a host; none when it is left out or the scheme's own. -/
def portNumber? (scheme : String) : Option (List Char) → Except UrlFault (Option Nat)
  | none => .ok none
  | some [] => .ok none
  | some ds =>
    match Text.digits? ds with
    | none => .error .badPort
    | some n =>
      if 65535 < n then .error .badPort
      else .ok (if defaultPort? scheme = some n then none else some n)

/-- Cut a text before the first character that a test finds. -/
def cut (test : Char → Bool) (cs : List Char) : List Char × List Char :=
  let front := cs.takeWhile fun c => !test c
  (front, cs.drop front.length)

/-- The path, query and fragment behind a host. -/
def readTail (special : Bool) (cs : List Char) : String × Option String × Option String :=
  let (front, fragment) := cut (· = '#') cs
  let (path, query) := cut (· = '?') front
  let part (escapes : Char → Bool) (cs : List Char) : Option String :=
    if cs.isEmpty then none else some (encode escapes cs.tail)
  (writePath special path, part (queryEscapes special) query, part fragmentEscapes fragment)

/-- Read an address. -/
def parse (text : String) : Except UrlFault Url :=
  match splitScheme? (clean text.toList) with
  | none => .error .noScheme
  | some (scheme, rest) =>
    let special := isSpecial scheme
    match splitSlashes? special rest with
    | none => .error .noHost
    | some rest =>
      let ends (c : Char) : Bool := c = '/' || c = '?' || c = '#' || (special && c = '\\')
      let (authority, tail) := cut ends rest
      let (host, digits) := splitPort false (dropCredentials authority)
      if host.isEmpty then .error (if special then .emptyHost else .noHost)
      else
        match Host.parse? host with
        | none => .error .badHost
        | some host =>
          (portNumber? scheme digits).map fun portNumber =>
            let (path, query, fragment) := readTail special tail
            { scheme, host, portNumber, path, query, fragment }

/-! ## Writing -/

/-- The written form. -/
def text (u : Url) : String :=
  u.scheme ++ "://" ++ u.host ++ (u.portNumber.elim "" fun n => s!":{n}") ++ u.path ++
    (u.query.elim "" ("?" ++ ·)) ++ (u.fragment.elim "" ("#" ++ ·))

/-- The written form for messages: whatever the query holds, it does not show. -/
def redacted (u : Url) : String :=
  Url.text { u with query := u.query.map fun _ => "%3Credacted%3E" }

end Url

end ResultChunks.Http
