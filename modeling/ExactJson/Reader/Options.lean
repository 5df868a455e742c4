import ExactJson.Number.Run

/-!
# Reading options

The reader is bounded by three limits: the nesting depth of containers (the top container is at
depth one), the size of the input in octets, and the exponent written in a number. A limit of
zero or less stands for its default (1000, 64 MiB and 4096). Strings are unescaped by default,
or kept exactly as written between their quotes; numbers may refuse exponent marks.
-/

namespace ExactJson

/-- What the reader does with the escapes in strings. -/
inductive StringMode where
  /-- Replace escape sequences by what they stand for. -/
  | unescape
  /-- Keep the content between the quotes exactly as written. -/
  | raw
  deriving DecidableEq, Repr

namespace StringMode

/-- The name of a string mode. -/
def name : StringMode → String
  | unescape => "unescape"
  | raw => "raw"

/-- The name of the string mode numbered `n`, or `StringMode(n)` when none has that number. -/
def nameOfIndex (n : Int) : String :=
  if n = 0 then unescape.name
  else if n = 1 then raw.name
  else "StringMode(" ++ toString n ++ ")"

end StringMode

/-- Options of the reader. -/
structure ReadOptions where
  /-- The deepest nesting allowed; zero or less means 1000. -/
  maxDepth : Int := 0
  /-- The largest input allowed, in octets; zero or less means 64 MiB. -/
  maxInputSize : Int := 0
  /-- What to do with escapes in strings. -/
  strings : StringMode := .unescape
  /-- Whether numbers with an exponent mark are refused. -/
  rejectExponent : Bool := false
  /-- The largest exponent magnitude allowed; zero or less means 4096. -/
  maxExponent : Int := 0
  deriving DecidableEq, Repr

namespace ReadOptions

/-- The depth limit when none is given. -/
def defaultMaxDepth : Nat := 1000

/-- The size limit when none is given: 64 MiB. -/
def defaultMaxInputSize : Nat := 64 * 1024 * 1024

/-- The depth limit in force. -/
def depthLimit (o : ReadOptions) : Nat :=
  if 0 < o.maxDepth then o.maxDepth.toNat else defaultMaxDepth

/-- The size limit in force. -/
def sizeLimit (o : ReadOptions) : Nat :=
  if 0 < o.maxInputSize then o.maxInputSize.toNat else defaultMaxInputSize

/-- The options for numbers. -/
def numberOptions (o : ReadOptions) : NumberOptions :=
  { rejectExponent := o.rejectExponent, maxExponent := o.maxExponent }

end ReadOptions

end ExactJson
