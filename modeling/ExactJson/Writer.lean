import ExactJson.Failure
import ExactJson.Value.Basic
import ExactJson.Text.Escape
import ExactJson.Text.Utf16

/-!
# Writing values

A value is written as JSON text. Literals are lower case, integers are their digits, decimals
their `Decimal.render` text, and strings are escaped with the fewest escapes, or, with raw
strings, written between quotes exactly as they are. Objects list their members in insertion
order, or stably sorted by the UTF-16 units of their keys.

With an indent step `k > 0` (steps above 8 count as 8), each member or element of a non-empty
container stands on a line of its own, `k` spaces deeper than the container, the closing bracket
stands on a line at the container's depth, and a key is followed by `: `; empty containers are
`{}` and `[]`. With step 0 the text has no blanks at all.

A foreign node cannot be written: the first one met in writing order fails the whole value with
`cannot serialize T`, `T` its type name.

A value can also be sent to an output stream (`Value.encode`): the text is made first and goes
out in one write, so a value that cannot be written sends nothing, and a stream that refuses the
write fails as input and output. `Value.writeLine` sends a line feed after the text, as a file's
last line.
-/

namespace ExactJson

/-- Options of the writer. -/
structure WriteOptions where
  /-- Whether object members are written in UTF-16 key order. -/
  sortKeys : Bool := false
  /-- Spaces per nesting level; zero or less is compact, above 8 counts as 8. -/
  indent : Int := 0
  /-- Whether strings and keys are written between quotes with no escaping. -/
  rawStrings : Bool := false
  deriving DecidableEq, Repr

namespace WriteOptions

/-- The widest indent step. -/
def maxIndent : Nat := 8

/-- The indent step in force. -/
def step (o : WriteOptions) : Nat :=
  if o.indent < 0 then 0 else min o.indent.toNat maxIndent

end WriteOptions

/-- Members stably sorted by the UTF-16 units of their keys. -/
def sortMembers {α : Type} (ms : List (Bytes × α)) : List (Bytes × α) :=
  ms.mergeSort fun a b => Utf16.compare a.1 b.1 != .gt

namespace Value

mutual

/-- The value with the members of every object, at every depth, in UTF-16 key order. -/
def sortKeys : Value → Value
  | .obj ms => .obj (sortMembers (sortKeysMembers ms))
  | .arr xs => .arr (sortKeysElems xs)
  | v => v

/-- `sortKeys` applied to every member value. -/
def sortKeysMembers : List (Bytes × Value) → List (Bytes × Value)
  | [] => []
  | (k, v) :: rest => (k, sortKeys v) :: sortKeysMembers rest

/-- `sortKeys` applied to every element. -/
def sortKeysElems : List Value → List Value
  | [] => []
  | x :: rest => sortKeys x :: sortKeysElems rest

end

end Value

namespace Writer

/-- A line break followed by the indentation of `level` nesting levels; nothing when compact. -/
def breakAt (o : WriteOptions) (level : Nat) : Bytes :=
  if o.step = 0 then [] else 0x0A :: List.replicate (level * o.step) 0x20

/-- A string or key between quotes. -/
def quoted (o : WriteOptions) (s : Bytes) : Bytes :=
  0x22 :: (if o.rawStrings then s else Escape.escape s) ++ [0x22]

/-- A key with the separator after it. -/
def field (o : WriteOptions) (k : Bytes) : Bytes :=
  quoted o k ++ (if o.step = 0 then [0x3A] else [0x3A, 0x20])

/-- The failure for a node that has no JSON form. -/
def refuse (typeName : String) : Failure :=
  Failure.make .unsupportedValue (-1) ("cannot serialize " ++ typeName)

mutual

/-- The text of a value whose container content stands at `level`, members in list order. -/
def value (o : WriteOptions) (level : Nat) : Value → Except Failure Bytes
  | .null => .ok (Bytes.ofString "null")
  | .bool true => .ok (Bytes.ofString "true")
  | .bool false => .ok (Bytes.ofString "false")
  | .int n => .ok (Bytes.ofInt n.toInt)
  | .dec d => .ok (Bytes.ofString d.render)
  | .str s => .ok (quoted o s)
  | .obj [] => .ok (Bytes.ofString "{}")
  | .obj (m :: ms) => do
    let body ← members o (level + 1) (m :: ms)
    pure ([0x7B] ++ breakAt o (level + 1) ++ body ++ breakAt o level ++ [0x7D])
  | .arr [] => .ok (Bytes.ofString "[]")
  | .arr (x :: xs) => do
    let body ← elems o (level + 1) (x :: xs)
    pure ([0x5B] ++ breakAt o (level + 1) ++ body ++ breakAt o level ++ [0x5D])
  | .foreign t => .error (refuse t)

/-- Members at `level`, separated by commas and line breaks. -/
def members (o : WriteOptions) (level : Nat) : List (Bytes × Value) → Except Failure Bytes
  | [] => .ok []
  | [(k, v)] => do pure (field o k ++ (← value o level v))
  | (k, v) :: rest => do
    let head ← value o level v
    let tail ← members o level rest
    pure (field o k ++ head ++ [0x2C] ++ breakAt o level ++ tail)

/-- Elements at `level`, separated by commas and line breaks. -/
def elems (o : WriteOptions) (level : Nat) : List Value → Except Failure Bytes
  | [] => .ok []
  | [x] => value o level x
  | x :: rest => do
    let head ← value o level x
    let tail ← elems o level rest
    pure (head ++ [0x2C] ++ breakAt o level ++ tail)

end

end Writer

/-- The JSON text of a value. -/
def Value.write (v : Value) (o : WriteOptions := {}) : Except Failure Bytes :=
  Writer.value o 0 (if o.sortKeys then v.sortKeys else v)

/-- An output stream with state `σ`: it takes some octets, or refuses them with the text of the
failure underneath. -/
abbrev Sink (σ : Type) := σ → Bytes → Except Bytes σ

/-- The failure for an output stream that refused a write. -/
def Writer.outputFailed (cause : Bytes) : Failure :=
  { Failure.make .internalStream (-1) "write output" with cause := some cause }

/-- Sends the text of a value to a stream, in one write once the whole text is made. -/
def Value.encode {σ : Type} (v : Value) (o : WriteOptions) (put : Sink σ) (s : σ) :
    Except Failure σ :=
  match v.write o with
  | .error f => .error f
  | .ok text => (put s text).mapError Writer.outputFailed

/-- Sends the text of a value to a stream, then a line feed. -/
def Value.writeLine {σ : Type} (v : Value) (o : WriteOptions) (put : Sink σ) (s : σ) :
    Except Failure σ :=
  match v.encode o put s with
  | .error f => .error f
  | .ok s' => (put s' [0x0A]).mapError Writer.outputFailed

end ExactJson
