import ExactJson.Number.Decimal

/-!
# Reading decimal text

Decimal text is a coefficient with at most one point, optionally followed by `e` or `E` and an
exponent. The exponent is read first and must be a 32-bit integer (`+` and leading zeros are
allowed); then the points are counted, the point is dropped from the coefficient and the
exponent lowered by the number of digits after it; the coefficient must then be an optional sign
and one or more digits; and the final exponent must again fit 32 bits.

Each failure names the text it was looking at: the whole text for a bad exponent, the part
before the exponent for a bad coefficient.
-/

namespace ExactJson.Decimal

/-- Whether an octet is an exponent mark. -/
def isExponentMark (b : UInt8) : Bool := b = 0x65 || b = 0x45

/-- The coefficient text with its point removed, and the number of digits after the point. -/
def dropPoint (s : Bytes) : Bytes × Nat :=
  match s.idxOf? 0x2E with
  | some i => (s.take i ++ s.drop (i + 1), s.length - (i + 1))
  | none => (s, 0)

/-- The least 32-bit integer. -/
def minExp : Int := -2147483648

/-- The greatest 32-bit integer. -/
def maxExp : Int := 2147483647

/-- The failure text `can't convert TEXT to decimal`, with a reason when there is one. -/
def refusal (text : Bytes) (reason : String) : Bytes :=
  Bytes.ofString "can't convert " ++ text ++ Bytes.ofString (" to decimal" ++ reason)

/-- Reads the coefficient part (no exponent) onto an exponent already read. -/
def ofCoefficient (whole : Bytes) (mant : Bytes) (exp : Int) : Except Bytes Decimal :=
  if 2 ≤ mant.count 0x2E then .error (refusal mant ": too many .s")
  else
    let (digits, scale) := dropPoint mant
    match Integer.readUnbounded digits with
    | none => .error (refusal mant "")
    | some c =>
      let e := exp - scale
      if e < minExp ∨ maxExp < e then .error (refusal whole ": fractional part too long")
      else .ok ⟨c, e⟩

/-- Reads decimal text, or says why it is none. -/
def ofText? (s : Bytes) : Except Bytes Decimal :=
  match s.findIdx? isExponentMark with
  | none => ofCoefficient s s 0
  | some i =>
    match Integer.readSigned 32 (s.drop (i + 1)) with
    | .error .outOfRange => .error (refusal s ": fractional part too long")
    | .error .malformed => .error (refusal s ": exponent is not numeric")
    | .ok e => ofCoefficient s (s.take i) e

end ExactJson.Decimal
