import ExactJson.Text.Bytes

/-!
# Failures

Every failure of the library has a class, which a caller can branch on without reading the
message, an optional byte offset into the input, a message, and the text of an underlying cause
if there is one. A failure renders as `jverr: CLASS at byte N: MESSAGE` (or `jverr: CLASS:
MESSAGE` without an offset), followed by `: CAUSE`.

The class also fixes the exit status of the command line: 10 for an internal failure (input and
output, or a broken invariant), 2 for every other class.

`Problem` is a failure as a caller reports it: a classified failure or a plain message, under
the labels of the steps that led to it (`read stdin: ...`).
-/

namespace ExactJson

/-- The stable categories of failure. -/
inductive FailureClass where
  /-- The reader's table has no edge for the byte it saw. -/
  | noTransition
  /-- A byte that cannot begin what the reader expects there. -/
  | unexpectedToken
  /-- The input ends inside a quoted string. -/
  | unterminatedString
  /-- The input ends inside a run of letters. -/
  | unterminatedLiteral
  /-- A numeric run that is no number. -/
  | invalidNumber
  /-- A run of letters other than `true`, `false`, `null`. -/
  | unknownLiteral
  /-- A node that has no JSON form. -/
  | unsupportedValue
  /-- A malformed escape sequence in a string. -/
  | invalidEscape
  /-- Something other than blanks after the document. -/
  | trailingContent
  /-- A size, depth or exponent limit was passed. -/
  | boundExceeded
  /-- A path that leads nowhere in a document. -/
  | pathNotFound
  /-- The command line was used wrongly. -/
  | usage
  /-- Reading or writing a stream or file failed. -/
  | internalStream
  /-- An invariant of the library did not hold. -/
  | internalError
  /-- A class known only by its name. -/
  | other (name : String)
  deriving DecidableEq, Repr

namespace FailureClass

/-- The classes with a fixed name, in the order the names are listed. -/
def known : List FailureClass :=
  [noTransition, unexpectedToken, unterminatedString, unterminatedLiteral, invalidNumber,
   unknownLiteral, unsupportedValue, invalidEscape, trailingContent, boundExceeded, pathNotFound,
   usage, internalStream, internalError]

/-- The name of a class, as failures render it. -/
def name : FailureClass → String
  | noTransition => "NO_TRANSITION"
  | unexpectedToken => "UNEXPECTED_TOKEN"
  | unterminatedString => "UNTERMINATED_STRING"
  | unterminatedLiteral => "UNTERMINATED_LITERAL"
  | invalidNumber => "INVALID_NUMBER"
  | unknownLiteral => "UNKNOWN_LITERAL"
  | unsupportedValue => "UNSUPPORTED_VALUE"
  | invalidEscape => "INVALID_ESCAPE"
  | trailingContent => "TRAILING_CONTENT"
  | boundExceeded => "BOUND_EXCEEDED"
  | pathNotFound => "PATH_NOT_FOUND"
  | usage => "CLI_USAGE"
  | internalStream => "INTERNAL_IO"
  | internalError => "INTERNAL_ERROR"
  | other n => n

/-- The class with a given name; a name outside the fixed list is a class of its own. -/
def ofName (n : String) : FailureClass :=
  match known.find? (·.name == n) with
  | some c => c
  | none => other n

/-- The exit status of a command that fails with this class. -/
def exitCode : FailureClass → Nat
  | internalStream | internalError => 10
  | _ => 2

end FailureClass

/-- A classified failure. -/
structure Failure where
  /-- What kind of failure it is. -/
  cls : FailureClass
  /-- The byte offset in the input where it was found; a negative offset places it nowhere. -/
  offset : Int
  /-- What went wrong. -/
  message : Bytes
  /-- The text of the failure underneath, if there is one. -/
  cause : Option Bytes := none
  deriving DecidableEq, Repr

namespace Failure

/-- A failure without a cause, its message given as text. -/
def make (cls : FailureClass) (offset : Int) (message : String) : Failure :=
  { cls, offset, message := Bytes.ofString message }

/-- The failure text: class, offset, message and cause. -/
def render (f : Failure) : Bytes :=
  let head :=
    if 0 ≤ f.offset then
      Bytes.ofString ("jverr: " ++ f.cls.name ++ " at byte " ++ toString f.offset ++ ": ")
    else Bytes.ofString ("jverr: " ++ f.cls.name ++ ": ")
  let tail := match f.cause with
    | some c => Bytes.ofString ": " ++ c
    | none => []
  head ++ f.message ++ tail

/-- The failure placed at `n`, unless it already has a place. -/
def placeAt (n : Nat) (f : Failure) : Failure :=
  if f.offset < 0 then { f with offset := n } else f

end Failure

/-- A failure as a caller reports it. -/
inductive Problem where
  /-- A classified failure. -/
  | failed (f : Failure)
  /-- A failure known only by its text. -/
  | plain (text : Bytes)
  /-- A failure under the label of the step that met it. -/
  | within (label : Bytes) (inner : Problem)
  deriving Repr

namespace Problem

/-- The text of a problem: each label followed by `: `, then the failure's text. -/
def text : Problem → Bytes
  | failed f => f.render
  | plain t => t
  | within l p => l ++ Bytes.ofString ": " ++ p.text

/-- The outermost classified failure, if there is one. -/
def failure? : Problem → Option Failure
  | failed f => some f
  | plain _ => none
  | within _ p => p.failure?

/-- The exit status for the problem; a problem with no class counts as an internal error. -/
def exitCode (p : Problem) : Nat :=
  match p.failure? with
  | some f => f.cls.exitCode
  | none => FailureClass.internalError.exitCode

end Problem

end ExactJson
