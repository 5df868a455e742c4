import ExactJson.Failure
import ExactJson.Reader.Code

/-!
# The cursor

A cursor walks over the octets of an input. It starts before the first octet; `next` moves it
one octet on and shows the octet it lands on, and `pushBack` undoes the last `next`, so that
the following `next` shows the same octet again. Past the last octet the cursor shows the end
of the input and stays where it is: a `next` there *stalls*, and the `pushBack` after a stalled
`next` has nothing to undo.

`seen` counts the octets the cursor has moved onto, so the octet under it is the one at index
`seen - 1`. The offset reported in failures is that index, and `0` before the first octet.

The runs the reader needs are read here as well: a quoted string (a backslash hides the octet
after it), a numeric run and a run of letters. Each read returns the cursor after it together
with its outcome; a failed read still moves the cursor, and its failure carries the offset
where the cursor stopped.
-/

namespace ExactJson

/-- A position in an input of octets. -/
structure Cursor where
  /-- The input. -/
  input : Array UInt8
  /-- How many octets the cursor has moved onto: the current octet is at `seen - 1`. -/
  seen : Nat := 0
  /-- Whether the last `next` was at the end of the input and did not move. -/
  stalled : Bool := false
  deriving Repr

namespace Cursor

/-- A cursor before the first octet of `input`. -/
def start (input : Array UInt8) : Cursor := { input }

/-- The octet under the cursor; none before the first octet and past the last. -/
def current (c : Cursor) : Option UInt8 :=
  if c.seen = 0 then none else c.input[c.seen - 1]?

/-- The code of the octet under the cursor. -/
def code (c : Cursor) : Int := Code.ofSight c.current

/-- The offset of the cursor: the index of its octet, and `0` before the first one. -/
def offset (c : Cursor) : Nat := c.seen - 1

/-- Whether a `next` would show an octet rather than the end of the input. -/
def hasMore (c : Cursor) : Bool := c.seen < c.input.size

/-- Moves one octet on, unless the cursor is already past the last octet, and shows what is
under it then. -/
def next (c : Cursor) : Cursor × Option UInt8 :=
  let c' := if c.input.size < c.seen then { c with stalled := true }
    else { c with seen := c.seen + 1, stalled := false }
  (c', c'.current)

/-- Undoes the last `next`: nothing after a stalled one, one octet back otherwise. -/
def pushBack (c : Cursor) : Cursor :=
  if c.stalled then { c with stalled := false } else { c with seen := c.seen - 1 }

/-- Moves over blanks, so that the following `next` shows the first octet that is no blank. -/
def skipBlanks (c : Cursor) : Cursor :=
  if h : c.seen < c.input.size then
    if Code.isBlank c.input[c.seen].toNat then
      skipBlanks { c with seen := c.seen + 1, stalled := false }
    else c.next.1.pushBack
  else c.next.1.pushBack
termination_by c.input.size - c.seen

/-- The first index from `j` on that is past the end or holds an octet outside the run `p`. -/
def runEnd (p : Int → Bool) (input : Array UInt8) (j : Nat) : Nat :=
  if h : j < input.size then
    if p input[j].toNat then runEnd p input (j + 1) else j
  else j
termination_by input.size - j

/-- The octets from index `i` up to index `j`. -/
def slice (input : Array UInt8) (i j : Nat) : Bytes := (input.extract i j).toList

/-- A failure at the cursor's offset. -/
def failure (c : Cursor) (cls : FailureClass) (message : String) : Failure :=
  Failure.make cls c.offset message

/-- How a scan for the closing quote ends. -/
inductive QuoteEnd where
  /-- The closing quote is at this index. -/
  | closed (index : Nat)
  /-- The input ends where an octet was expected. -/
  | unclosed
  /-- The input ends right after a backslash. -/
  | unclosedEscape

/-- Scans from index `j` for the quote that closes a string; a backslash hides the octet after
it. -/
def scanQuote (input : Array UInt8) (j : Nat) : QuoteEnd :=
  if h : j < input.size then
    if input[j] = 0x5C then
      if j + 1 < input.size then scanQuote input (j + 2) else .unclosedEscape
    else if input[j] = 0x22 then .closed j
    else scanQuote input (j + 1)
  else .unclosed
termination_by input.size - j

/-- Reads a quoted string; the cursor must be on the opening quote. The content between the
quotes comes back as written, escapes included, and the cursor ends one octet past the closing
quote. -/
def readQuoted (c : Cursor) : Cursor × Except Failure Bytes :=
  if c.current ≠ some 0x22 then
    (c, .error (c.failure .unexpectedToken
      ("expected '\"' to open string, got " ++ Code.describe c.code)))
  else
    let opening := c.seen - 1
    let stopped := { c with seen := c.input.size + 1, stalled := false }
    match scanQuote c.input c.seen with
    | .closed j => ({ c with seen := j + 2, stalled := false }, .ok (slice c.input c.seen j))
    | .unclosed => (stopped, .error (stopped.failure .unterminatedString
        ("unterminated string starting at byte " ++ toString opening)))
    | .unclosedEscape => (stopped, .error (stopped.failure .unterminatedString
        ("unterminated escape in string starting at byte " ++ toString opening)))

/-- Reads a numeric run; the cursor must be on its first octet, and ends on the first octet
after the run. -/
def readNumeric (c : Cursor) : Cursor × Except Failure Bytes :=
  if !Code.isNumberStart c.code then
    (c, .error (c.failure .invalidNumber ("number cannot start with " ++ Code.describe c.code)))
  else
    let k := runEnd Code.isNumberPart c.input c.seen
    ({ c with seen := k + 1, stalled := false }, .ok (slice c.input (c.seen - 1) k))

/-- Reads a run of ASCII letters; the cursor must be on its first letter, and ends on the first
octet after the run. A run that reaches the end of the input is a failure. -/
def readLetters (c : Cursor) : Cursor × Except Failure Bytes :=
  if !Code.isLetter c.code then
    (c, .error (c.failure .unexpectedToken ("literal cannot start with " ++ Code.describe c.code)))
  else
    let k := runEnd Code.isLetter c.input c.seen
    let c' := { c with seen := k + 1, stalled := false }
    if k < c.input.size then (c', .ok (slice c.input (c.seen - 1) k))
    else
      let text := slice c.input (c.seen - 1) c.input.size
      (c', .error (c'.failure .unterminatedLiteral
        ("literal " ++ Quoted.quote text ++ " runs to end of input")))

end Cursor

end ExactJson
