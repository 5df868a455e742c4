import ExactJson.Text.Bytes

/-!
# Integers in decimal text

Reading a signed integer of a fixed width from decimal text: an optional `+` or `-`, then one or
more ASCII digits, and nothing else. The digits are read from the left; a reading fails as *out
of range* as soon as the magnitude read so far passes the largest magnitude the width allows,
even when a later octet is no digit, and as *malformed* when an octet that is no digit comes
first. A magnitude that fits the unsigned width but not the signed one is out of range too.
-/

namespace ExactJson.Integer

/-- Why decimal text is no integer of the width asked for. -/
inductive Fault where
  /-- The text is not a sign followed by digits. -/
  | malformed
  /-- The value does not fit the width. -/
  | outOfRange
  deriving DecidableEq, Repr

/-- The value of an ASCII digit octet. -/
def digitValue? (b : UInt8) : Option Nat :=
  if 0x30 ≤ b ∧ b ≤ 0x39 then some (b.toNat - 0x30) else none

/-- Reads digits onto the magnitude `acc`, failing once the magnitude passes `maxVal`. -/
def readDigits (maxVal : Nat) (acc : Nat) : Bytes → Except Fault Nat
  | [] => .ok acc
  | b :: rest =>
    match digitValue? b with
    | none => .error .malformed
    | some d =>
      if maxVal < acc * 10 + d then .error .outOfRange else readDigits maxVal (acc * 10 + d) rest

/-- The magnitude of unsigned decimal text of `bits` bits: at least one digit, all digits. -/
def readUnsigned (bits : Nat) (s : Bytes) : Except Fault Nat :=
  if s.isEmpty then .error .malformed else readDigits (Nat.pow 2 bits - 1) 0 s

/-- Splits an optional leading sign off decimal text: whether it is `-`, and the rest. -/
def splitSign : Bytes → Bool × Bytes
  | 0x2B :: rest => (false, rest)
  | 0x2D :: rest => (true, rest)
  | s => (false, s)

/-- A signed integer of `bits` bits in decimal text, with an optional sign. -/
def readSigned (bits : Nat) (s : Bytes) : Except Fault Int :=
  let (neg, digits) := splitSign s
  let bound := Nat.pow 2 (bits - 1)
  match readUnsigned bits digits with
  | .error .malformed => .error .malformed
  | .error .outOfRange => .error .outOfRange
  | .ok m =>
    if neg then (if bound < m then .error .outOfRange else .ok (-(m : Int)))
    else if bound ≤ m then .error .outOfRange else .ok (m : Int)

/-- Reads digits onto the magnitude `acc`, with no bound. -/
def readAllDigits (acc : Nat) : Bytes → Option Nat
  | [] => some acc
  | b :: rest => (digitValue? b).bind fun d => readAllDigits (acc * 10 + d) rest

/-- An integer of any size in decimal text: an optional sign and at least one digit. -/
def readUnbounded (s : Bytes) : Option Int :=
  let (neg, digits) := splitSign s
  if digits.isEmpty then none
  else (readAllDigits 0 digits).map fun m => if neg then -(m : Int) else m

/-- A 64-bit signed integer in decimal text. -/
def readInt64? (s : Bytes) : Option Int64 :=
  match readSigned 64 s with
  | .ok n => some (Int64.ofInt n)
  | .error _ => none

end ExactJson.Integer
