import ExactJson.Number.Binary

/-!
# Float text

Floating-point numbers written as programming-language literals:

* an optional sign, then `inf` or `infinity` in any case;
* `nan` in any case, without a sign;
* an optional sign, then a decimal mantissa (digits with at most one point, and at least one
  digit) and an optional exponent: `e` or `E`, an optional sign, and digits;
* an optional sign, then `0x` or `0X`, a hexadecimal mantissa of the same shape, and a binary
  exponent `p` or `P`, which is not optional.

Underscores may stand between two digits, and between a base prefix and a digit; nowhere else.
The digits of an exponent are read until it reaches 10000, and later digits no longer change it.

The number is the exact value of the text rounded to nearest in a format, a tie going to the
even significand. A value past the largest number of the format reads as an infinity and is
*out of range*; a value below half the least positive number reads as zero, which is not.
-/

namespace ExactJson

namespace FloatText

/-- Whether an octet is an ASCII decimal digit. -/
def isDigit (b : UInt8) : Bool := 0x30 ≤ b && b ≤ 0x39

/-- The value of a digit in base 10 or 16. -/
def digitValue (hex : Bool) (b : UInt8) : Option Nat :=
  let l := Bytes.lowerOctet b
  if isDigit b then some (b - 0x30).toNat
  else if hex && 0x61 ≤ l && l ≤ 0x66 then some ((l - 0x61).toNat + 10)
  else none

/-- The digits of a mantissa read so far. -/
structure Mantissa where
  /-- The digits read as one number. -/
  value : Nat := 0
  /-- How many digits stand after the point. -/
  after : Nat := 0
  /-- Whether the point was seen. -/
  point : Bool := false
  /-- Whether any digit was seen. -/
  seen : Bool := false
  deriving DecidableEq, Repr

/-- Reads a mantissa: digits, underscores and one point, as far as they go; the mantissa and
the text after it. -/
def Mantissa.read (hex : Bool) (m : Mantissa) : Bytes → Mantissa × Bytes
  | [] => (m, [])
  | b :: rest =>
    if b = 0x5F then m.read hex rest
    else if b = 0x2E then
      if m.point then (m, b :: rest) else Mantissa.read hex { m with point := true } rest
    else match digitValue hex b with
      | some d =>
        Mantissa.read hex
          { m with value := m.value * (if hex then 16 else 10) + d,
                   after := if m.point then m.after + 1 else m.after, seen := true } rest
      | none => (m, b :: rest)

/-- Reads the digits of an exponent, and underscores among them, up to the first other octet;
the exponent stops growing once it reaches 10000. -/
def exponentDigits (e : Nat) : Bytes → Nat × Bytes
  | [] => (e, [])
  | b :: rest =>
    if b = 0x5F then exponentDigits e rest
    else if isDigit b then
      exponentDigits (if e < 10000 then e * 10 + (b - 0x30).toNat else e) rest
    else (e, b :: rest)

/-- Whether the underscores of literal text stand only between digits, or between a base prefix
and a digit. -/
def underscoresFit (s : Bytes) : Bool :=
  let s := match s with
    | 0x2B :: rest => rest
    | 0x2D :: rest => rest
    | _ => s
  -- the last kind of octet seen: 0 start, 1 digit or prefix, 2 underscore, 3 anything else
  let (hex, start, body) : Bool × Nat × Bytes := match s with
    | 0x30 :: p :: rest =>
      let l := Bytes.lowerOctet p
      if l = 0x62 || l = 0x6F || l = 0x78 then (l == 0x78, 1, rest) else (false, 0, s)
    | _ => (false, 0, s)
  let step (last : Option Nat) (b : UInt8) : Option Nat := do
    let last ← last
    if (digitValue hex b).isSome then some 1
    else if b = 0x5F then (if last = 1 then some 2 else none)
    else if last = 2 then none
    else some 3
  match body.foldl step (some start) with
  | some last => last != 2
  | none => false

/-- The sign of literal text and the text after it. -/
def splitSign : Bytes → Bool × Bytes
  | 0x2D :: rest => (true, rest)
  | 0x2B :: rest => (false, rest)
  | s => (false, s)

/-- The number written by literal text that is no special word: its sign, whether it is
hexadecimal, its digits, and the power of the base (2 for hexadecimal text, else 10) that
scales them. -/
def scan (s : Bytes) : Option (Bool × Bool × Nat × Int) := do
  let (neg, body) := splitSign s
  let lower := body.map Bytes.lowerOctet
  let hex := 3 ≤ body.length && lower.take 2 = [0x30, 0x78]
  let body := if hex then body.drop 2 else body
  let (m, rest) := Mantissa.read hex {} body
  if !m.seen then none
  let mark : UInt8 := if hex then 0x70 else 0x65
  let exp ← match rest with
    | [] => if hex then none else some (0 : Int)
    | c :: more =>
      if Bytes.lowerOctet c != mark then none
      else
        let (eneg, digits) := splitSign more
        match digits with
        | d :: _ =>
          if !isDigit d then none
          else
            let (e, tail) := exponentDigits 0 digits
            if tail.isEmpty then some (if eneg then -(e : Int) else e) else none
        | [] => none
  if s.contains 0x5F && !underscoresFit s then none
  let scale : Int := if hex then exp - 4 * m.after else exp - m.after
  pure (neg, hex, m.value, scale)

/-- The special word of literal text, if it is one: an infinity or not-a-number. -/
def special (s : Bytes) : Option FloatClass :=
  let lower := s.map Bytes.lowerOctet
  let (neg, word) := splitSign lower
  if word = Bytes.ofString "inf" || word = Bytes.ofString "infinity" then some (.infinite neg)
  else if lower = Bytes.ofString "nan" then some .nan
  else none

end FloatText

/-- Reads literal float text into a format: the number, and whether it lay out of the format's
range (it is then an infinity). Text that is no literal gives none. -/
def readFloatText (f : FloatFormat) (s : Bytes) : Option (FloatClass × Bool) :=
  match FloatText.special s with
  | some c => some (c, false)
  | none => do
    let (neg, hex, digits, scale) ← FloatText.scan s
    let zero := (FloatClass.finite neg 0 0, false)
    let far := (FloatClass.infinite neg, true)
    if digits = 0 then pure zero
    else
      -- the number of digits of the value in its base, for a first look at its size
      let size : Int := if hex then bitLength digits else (toString digits).length
      let top : Int := if hex then 1100 else 310
      let bottom : Int := if hex then -1200 else -330
      if top < size + scale then pure far
      else if size + scale < bottom then pure zero
      else
        let base := if hex then 2 else 10
        let (num, den) :=
          if 0 ≤ scale then (digits * Nat.pow base scale.toNat, 1)
          else (digits, Nat.pow base scale.natAbs)
        match f.round num den with
        | some (m, e) => pure (.finite neg m e, false)
        | none => pure far

/-- The 64-bit signed integer a float is cut to, toward zero. Not-a-number, the infinities and
floats whose whole part lies outside 64 signed bits all give the least integer, `-2 ^ 63`,
which is what the float-to-integer conversion of x86-64 processors gives for every input it
cannot convert. -/
def FloatClass.toInt64 : FloatClass → Int
  | .finite neg m e =>
    let whole : Nat := if 0 ≤ e then m * Nat.pow 2 e.toNat else m / Nat.pow 2 e.natAbs
    if Nat.pow 2 63 ≤ whole then -(Nat.pow 2 63 : Int)
    else if neg then -(whole : Int) else whole
  | _ => -(Nat.pow 2 63 : Int)

end ExactJson
