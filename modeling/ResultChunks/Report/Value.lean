import ResultChunks.Bytes.LittleEndian
import ResultChunks.Json.Value
import ResultChunks.Number.Binary64
import ResultChunks.Text.Hex
import ResultChunks.Time.Duration

/-!
# Plain values in reports

A report is the JSON form of a value of this library. Durations are pairs of seconds and
nanoseconds; bytes, and the bits of floating point numbers from the highest byte on, are hexadecimal
texts.
-/

namespace ResultChunks.Report

/-- A report of named parts. -/
def obj (fields : List (String × Json)) : Json := .object fields

/-- A list of reports. -/
def arr (items : List Json) : Json := .array items

/-- A text. -/
def str (s : String) : Json := .text s

/-- A whole number. -/
def num (n : Int) : Json := .ofInt n

/-- A value that may be missing. -/
def orNull {α : Type} (report : α → Json) (v : Option α) : Json := .ofOption (v.map report)

/-- Bytes. -/
def bytes (bs : List UInt8) : Json := str (Hex.render bs)

/-- The lowest bits of a number, as many as a count of bytes holds. -/
def bits (width n : Nat) : Json := bytes (Bytes.ofNat width n).reverse

/-- A floating point number. -/
def binary64 (x : Binary64) : Json := bits 8 x.bits.toNat

/-- A duration. -/
def duration (d : Duration) : Json := arr [num d.secs, num d.subsecNanos]

end ResultChunks.Report
