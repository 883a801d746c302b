import ResultChunks.Text.Numeral
import ResultChunks.Text.Utf8

/-!
# Hosts of addresses

A host is a name, an address of four numbers, or an address of eight groups in square brackets. A
name whose last label is a number has to be an address of four numbers, which may also be written
with fewer numbers, in base eight or sixteen. Hosts are kept in one written form: names in small
letters, numbers in base ten, and the longest run of zero groups left out. Names are ASCII.
-/

namespace ResultChunks.Http.Host

/-- The value of a digit in a base up to sixteen. -/
def digitValue? (base : Nat) (c : Char) : Option Nat :=
  let value :=
    if '0' ≤ c && c ≤ '9' then c.toNat - '0'.toNat
    else if 'a' ≤ c && c ≤ 'f' then c.toNat - 'a'.toNat + 10
    else if 'A' ≤ c && c ≤ 'F' then c.toNat - 'A'.toNat + 10
    else 16
  if value < base then some value else none

/-- The value of digits in a base. -/
def valueIn? (base : Nat) (cs : List Char) : Option Nat :=
  cs.foldlM (fun n c => (digitValue? base c).map (n * base + ·)) 0

/-- The pieces of a text between separators. -/
def splitAt (sep : Char) : List Char → List (List Char)
  | [] => [[]]
  | c :: cs =>
    if c = sep then [] :: splitAt sep cs
    else
      match splitAt sep cs with
      | [] => [[c]]
      | piece :: pieces => (c :: piece) :: pieces

/-! ## Four numbers -/

/-- A number in base ten, or after a zero in base eight, or after `0x` in base sixteen. -/
def part? (cs : List Char) : Option Nat :=
  match cs with
  | [] => none
  | '0' :: 'x' :: ds => valueIn? 16 ds
  | '0' :: 'X' :: ds => valueIn? 16 ds
  | '0' :: d :: ds => valueIn? 8 (d :: ds)
  | ds => valueIn? 10 ds

/-- The labels of a name; one empty label at the end is left out. -/
def labels (cs : List Char) : List (List Char) :=
  let ls := splitAt '.' cs
  if 1 < ls.length && ls.getLast? = some [] then ls.dropLast else ls

/-- Does a name have to be an address of four numbers? -/
def endsInNumber (cs : List Char) : Bool :=
  match (labels cs).getLast? with
  | none => false
  | some l => !l.isEmpty && (l.all Text.isDigit || (part? l).isSome)

/-- The value of the parts of an address: each one byte, but the last fills what is left. -/
def joinParts? : List Nat → Nat → Option Nat
  | [], _ => none
  | [n], room => if n < Nat.pow 256 room then some n else none
  | n :: m :: rest, room =>
    if n < 256 then (joinParts? (m :: rest) (room - 1)).map (n * Nat.pow 256 (room - 1) + ·)
    else none

/-- The written form of 32 bits. -/
def fourNumbers (n : Nat) : String :=
  ".".intercalate
    ([n / Nat.pow 256 3, n / Nat.pow 256 2 % 256, n / 256 % 256, n % 256].map toString)

/-- An address of four numbers. -/
def four? (cs : List Char) : Option Nat := do
  let parts := labels cs
  if 4 < parts.length then none
  else
    let ns ← parts.mapM part?
    joinParts? ns 4

/-! ## Eight groups -/

/-- The groups of a text between colons; the last may be an address of four plain numbers. -/
def groups? (cs : List Char) : Option (List Nat) :=
  if cs.isEmpty then some []
  else go (splitAt ':' cs)
where
  /-- Read the pieces one by one. -/
  go : List (List Char) → Option (List Nat)
    | [] => some []
    | [last] =>
      if last.contains '.' then do
        let ns ← (splitAt '.' last).mapM fun ds =>
          if ds.isEmpty || (1 < ds.length && ds.head? = some '0') then none else valueIn? 10 ds
        if ns.length = 4 && ns.all (· < 256) then
          let n := ns.foldl (fun n b => n * 256 + b) 0
          some [n / 65536, n % 65536]
        else none
      else (group? last).map ([·])
    | g :: gs => do
      let n ← group? g
      let ns ← go gs
      some (n :: ns)
  /-- One to four digits in base sixteen. -/
  group? (cs : List Char) : Option Nat :=
    if cs.isEmpty || 4 < cs.length then none else valueIn? 16 cs

/-- Cut a text at the first double colon. -/
def cutAtGap : List Char → Option (List Char × List Char)
  | ':' :: ':' :: rest => some ([], rest)
  | c :: rest => (cutAtGap rest).map fun (l, r) => (c :: l, r)
  | [] => none

/-- An address of eight groups; a double colon stands for groups of zero. -/
def eight? (cs : List Char) : Option (List Nat) :=
  match cutAtGap cs with
  | none => do
    let gs ← groups? cs
    if gs.length = 8 then some gs else none
  | some (l, r) => do
    let left ← groups? l
    let right ← groups? r
    let n := left.length + right.length
    if n < 8 && !l.contains '.' then some (left ++ List.replicate (8 - n) 0 ++ right) else none

/-- The start and length of the first longest run of zeros. -/
def longestGap (gs : List Nat) : Nat × Nat :=
  (List.range gs.length).foldl
    (fun (best : Nat × Nat) i =>
      let run := ((gs.drop i).takeWhile (· == 0)).length
      if best.2 < run then (i, run) else best)
    (0, 0)

/-- A group in base sixteen. -/
def hexGroup (n : Nat) : String := String.ofList (Nat.toDigits 16 n)

/-- The written form of eight groups. -/
def eightGroups (gs : List Nat) : String :=
  let (start, run) := longestGap gs
  let text (l : List Nat) := ":".intercalate (l.map hexGroup)
  if run < 2 then "[" ++ text gs ++ "]"
  else "[" ++ text (gs.take start) ++ "::" ++ text (gs.drop (start + run)) ++ "]"

/-! ## Names -/

/-- Undo percent signs: a percent sign and two digits stand for a byte. -/
def percentDecode : List Char → List UInt8
  | '%' :: a :: b :: rest =>
    match digitValue? 16 a, digitValue? 16 b with
    | some x, some y => UInt8.ofNat (x * 16 + y) :: percentDecode rest
    | _, _ => Utf8.encode "%" ++ percentDecode (a :: b :: rest)
  | c :: rest => Utf8.encode (String.singleton c) ++ percentDecode rest
  | [] => []
  termination_by cs => cs.length

/-- Characters that no name may hold. -/
def isForbidden (c : Char) : Bool :=
  c.toNat ≤ 0x20 || 0x7f ≤ c.toNat || " #/:<>?@[\\]^|%".toList.contains c

/-- The written form of a host of an address on the network. -/
def parse? (cs : List Char) : Option String :=
  match cs with
  | [] => none
  | '[' :: rest =>
    match rest.reverse with
    | ']' :: inner => (eight? inner.reverse).map eightGroups
    | _ => none
  | cs =>
    match Utf8.decode (percentDecode cs) with
    | .error _ => none
    | .ok name =>
      let name := name.toList.map Char.toLower
      if name.isEmpty || name.any isForbidden then none
      else if endsInNumber name then (four? name).map fourNumbers
      else some (String.ofList name)

end ResultChunks.Http.Host
