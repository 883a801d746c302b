import ResultChunks.Json.Value

/-!
# Reading JSON

The grammar is the standard one, without any leniency: blanks are the four ASCII ones, numbers have
no leading zeros, strings hold no control characters, no comma trails, and nothing but blanks
follows the value. Each reader returns what it read and the rest; `fuel` bounds the nesting and the
number of items together, and the length of the input is always enough.
-/

namespace ResultChunks.Json

/-- Leave out blanks. -/
def skipBlanks : List Char → List Char
  | c :: s => if c = ' ' || c = '\n' || c = '\t' || c = '\r' then skipBlanks s else c :: s
  | [] => []

/-- Four hexadecimal digits. -/
def readUnit : List Char → Option (Nat × List Char)
  | a :: b :: c :: d :: s => do
    let a ← Hex.value? a
    let b ← Hex.value? b
    let c ← Hex.value? c
    let d ← Hex.value? d
    some (((a * 16 + b) * 16 + c) * 16 + d, s)
  | _ => none

/-- The character that a short escape stands for. -/
def shortEscape? (c : Char) : Option Char :=
  if c = '"' then some '"'
  else if c = '\\' then some '\\'
  else if c = '/' then some '/'
  else if c = 'b' then some (Char.ofNat 8)
  else if c = 'f' then some (Char.ofNat 12)
  else if c = 'n' then some '\n'
  else if c = 'r' then some '\r'
  else if c = 't' then some '\t'
  else none

/-- The first half of a surrogate pair. -/
def isLeading (n : Nat) : Bool := 0xd800 ≤ n && n ≤ 0xdbff

/-- The second half of a surrogate pair. -/
def isTrailing (n : Nat) : Bool := 0xdc00 ≤ n && n ≤ 0xdfff

/-- A piece of a string literal: a unit of 16 bits from an escape, or a character. -/
inductive Piece where
  | char (c : Char)
  | unit (n : Nat)

/-- Read a string literal after its opening quote. -/
def readPieces : Nat → List Char → List Piece → Option (List Piece × List Char)
  | 0, _, _ => none
  | _ + 1, [], _ => none
  | fuel + 1, c :: s, acc =>
    if c = '"' then some (acc.reverse, s)
    else if c.toNat < 32 then none
    else if c = '\\' then
      match s with
      | [] => none
      | 'u' :: s =>
        match readUnit s with
        | none => none
        | some (n, s) => readPieces fuel s (.unit n :: acc)
      | e :: s =>
        match shortEscape? e with
        | none => none
        | some c => readPieces fuel s (.char c :: acc)
    else readPieces fuel s (.char c :: acc)

/-- The characters that pieces stand for; half a surrogate pair stands for none. -/
def charsOfPieces : List Piece → Option (List Char)
  | [] => some []
  | .char c :: ps => (charsOfPieces ps).map (c :: ·)
  | .unit n :: ps =>
    if isLeading n then
      match ps with
      | .unit k :: qs =>
        if isTrailing k then
          (charsOfPieces qs).map
            (Char.ofNat ((n - 0xd800) * 0x400 + (k - 0xdc00) + 0x10000) :: ·)
        else none
      | _ => none
    else if isTrailing n then none
    else (charsOfPieces ps).map (Char.ofNat n :: ·)

/-- Read a string literal after its opening quote: its text, if it has one. -/
def readString (s : List Char) : Option (Option String × List Char) :=
  (readPieces (s.length + 1) s []).map fun (ps, s) => ((charsOfPieces ps).map String.ofList, s)

/-- An ASCII digit. -/
def isDigit (c : Char) : Bool := '0' ≤ c && c ≤ '9'

/-- One or more digits. -/
def readDigits (s : List Char) : Option (List Char × List Char) :=
  let ds := s.takeWhile isDigit
  if ds.isEmpty then none else some (ds, s.drop ds.length)

/-- The digits before the point: a single zero, or no zero in front. -/
def readWhole : List Char → Option (List Char × List Char)
  | '0' :: s => some (['0'], s)
  | s => readDigits s

/-- The point and the digits after it, if any. -/
def readFraction : List Char → Option (List Char × List Char)
  | '.' :: s => (readDigits s).map fun (ds, s) => ('.' :: ds, s)
  | s => some ([], s)

/-- The power of ten, if any. -/
def readExponent : List Char → Option (List Char × List Char)
  | [] => some ([], [])
  | c :: s =>
    if c = 'e' || c = 'E' then
      match s with
      | '+' :: s => (readDigits s).map fun (ds, s) => (c :: '+' :: ds, s)
      | '-' :: s => (readDigits s).map fun (ds, s) => (c :: '-' :: ds, s)
      | s => (readDigits s).map fun (ds, s) => (c :: ds, s)
    else some ([], c :: s)

/-- Read a number; what may not follow a number is left to the reader around it. -/
def readNumber (s : List Char) : Option (String × List Char) := do
  let (sign, s) := match s with
    | '-' :: s => (['-'], s)
    | s => ([], s)
  let (whole, s) ← readWhole s
  let (fraction, s) ← readFraction s
  let (power, s) ← readExponent s
  some (String.ofList (sign ++ whole ++ fraction ++ power), s)

/-- Leave out a given text. -/
def expectWord : List Char → List Char → Option (List Char)
  | [], s => some s
  | c :: w, d :: s => if c = d then expectWord w s else none
  | _ :: _, [] => none

mutual

/-- Read a value, with blanks in front. -/
def readValue : Nat → List Char → Option (Json × List Char)
  | 0, _ => none
  | fuel + 1, s =>
    match skipBlanks s with
    | [] => none
    | 'n' :: s => (expectWord ['u', 'l', 'l'] s).map fun s => (.null, s)
    | 't' :: s => (expectWord ['r', 'u', 'e'] s).map fun s => (.bool true, s)
    | 'f' :: s => (expectWord ['a', 'l', 's', 'e'] s).map fun s => (.bool false, s)
    | '"' :: s => (readString s).map fun (t, s) => (t.elim .noText .text, s)
    | '[' :: s =>
      match skipBlanks s with
      | ']' :: s => some (.array [], s)
      | s => (readItems fuel s []).map fun (vs, s) => (.array vs, s)
    | '{' :: s =>
      match skipBlanks s with
      | '}' :: s => some (.object [], s)
      | s => (readFields fuel s []).map fun (fs, s) => (.object fs, s)
    | s => (readNumber s).map fun (l, s) => (.number l, s)

/-- Read the items of an array up to its closing bracket. -/
def readItems : Nat → List Char → List Json → Option (List Json × List Char)
  | 0, _, _ => none
  | fuel + 1, s, acc =>
    match readValue fuel s with
    | none => none
    | some (v, s) =>
      match skipBlanks s with
      | ',' :: s => readItems fuel s (v :: acc)
      | ']' :: s => some ((v :: acc).reverse, s)
      | _ => none

/-- Read the fields of an object up to its closing bracket. -/
def readFields : Nat → List Char → List (String × Json) →
    Option (List (String × Json) × List Char)
  | 0, _, _ => none
  | fuel + 1, s, acc =>
    match skipBlanks s with
    | '"' :: s =>
      match readString s with
      | some (some k, s) =>
        match skipBlanks s with
        | ':' :: s =>
          match readValue fuel s with
          | none => none
          | some (v, s) =>
            match skipBlanks s with
            | ',' :: s => readFields fuel s ((k, v) :: acc)
            | '}' :: s => some (((k, v) :: acc).reverse, s)
            | _ => none
        | _ => none
      | _ => none
    | _ => none

end

/-- Read a whole text as one value. -/
def parse? (text : String) : Option Json :=
  let s := text.toList
  match readValue (s.length + 1) s with
  | some (v, rest) => if (skipBlanks rest).isEmpty then some v else none
  | none => none

end ResultChunks.Json
