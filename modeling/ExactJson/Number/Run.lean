import ExactJson.Failure
import ExactJson.Number.DecimalText
import ExactJson.Text.Quoted

/-!
# Numbers from numeric runs

A numeric run becomes a 64-bit integer when it is one (an optional sign and digits, in range),
and an exact decimal otherwise. Options may refuse exponent marks altogether, and bound the
exponent written after the mark, so that a short run such as `1e999999999` cannot stand for a
number whose plain text is huge. Digits without an exponent are never bounded: their plain text
can be longer than the run, but by at most two octets, as for `.5`, printed `0.5`, and `5.`,
printed `5.0` (`readNumber_text_length`).

Failures here have no offset; the reader places them at the start of the run.
-/

namespace ExactJson

/-- A number as the model holds it. -/
inductive Number where
  /-- A number that fits a signed 64-bit integer. -/
  | integer (n : Int64)
  /-- Any other number, exactly. -/
  | decimal (d : Decimal)
  deriving DecidableEq, Repr

/-- The text of a number in a document: the digits of an integer, `Decimal.render` of a
decimal. -/
def Number.text : Number → String
  | .integer n => toString n.toInt
  | .decimal d => d.render

/-- Options for reading numbers. -/
structure NumberOptions where
  /-- Whether a run with an exponent mark is refused. -/
  rejectExponent : Bool := false
  /-- The largest exponent magnitude allowed; zero or less means the default, 4096. -/
  maxExponent : Int := 0
  deriving DecidableEq, Repr

/-- The exponent bound used when none is given. -/
def NumberOptions.defaultMaxExponent : Nat := 4096

/-- The exponent bound in force. -/
def NumberOptions.limit (o : NumberOptions) : Nat :=
  if 0 < o.maxExponent then o.maxExponent.toNat else NumberOptions.defaultMaxExponent

/-- The exponent written after the first exponent mark of a run, if it reads as an integer. -/
def exponentWritten (raw : Bytes) : Option Int :=
  match raw.findIdx? Decimal.isExponentMark with
  | none => none
  | some i =>
    match Integer.readSigned 64 (raw.drop (i + 1)) with
    | .ok e => some e
    | .error _ => none

/-- Reads a numeric run as a number. -/
def readNumber (raw : Bytes) (o : NumberOptions) : Except Failure Number :=
  if raw.isEmpty then .error (Failure.make .invalidNumber (-1) "empty number")
  else match Integer.readInt64? raw with
  | some n => .ok (.integer n)
  | none =>
    if o.rejectExponent && raw.any Decimal.isExponentMark then
      .error (Failure.make .invalidNumber (-1)
        ("exponential notation not accepted: " ++ Quoted.quote raw))
    else match Decimal.ofText? raw with
    | .error why =>
      .error { cls := .invalidNumber, offset := -1,
               message := Bytes.ofString ("invalid number " ++ Quoted.quote raw),
               cause := some why }
    | .ok d =>
      match exponentWritten raw with
      | some e =>
        if (o.limit : Int) < e ∨ (o.limit : Int) < -e then
          .error (Failure.make .boundExceeded (-1)
            ("number " ++ Quoted.quote raw ++ " has exponent " ++ toString e ++ " beyond limit "
              ++ toString o.limit))
        else .ok (.decimal d)
      | none => .ok (.decimal d)

end ExactJson
