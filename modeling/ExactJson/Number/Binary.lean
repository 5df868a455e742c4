import ExactJson.Number.Integer

/-!
# Binary floating point

A finite binary floating-point number is `± m × 2 ^ e` with an integer significand `m` below
`2 ^ p` and an exponent `e` no less than the format's least exponent. Rounding a positive
rational to such a number takes the nearest one, a tie going to the even significand; a result
past the largest finite number is infinite.

Binary64 (`p = 53`, least exponent −1074) is the format values are kept in; binary32 (`p = 24`,
least exponent −149) is read and then widened, which is exact. `Binary64.classify` reads the
bits of a binary64 number back, and `FloatClass.bits` writes them.
-/

namespace ExactJson

/-- A binary floating-point format. -/
structure FloatFormat where
  /-- Bits of the significand, the leading one included. -/
  precision : Nat
  /-- The exponent of the least positive number. -/
  minExp : Int
  /-- The exponent of the largest finite numbers. -/
  maxExp : Int

namespace FloatFormat

/-- The binary64 format. -/
def binary64 : FloatFormat := ⟨53, -1074, 971⟩

/-- The binary32 format. -/
def binary32 : FloatFormat := ⟨24, -149, 104⟩

end FloatFormat

/-- What a binary floating-point number is. -/
inductive FloatClass where
  /-- Not a number. -/
  | nan
  /-- An infinity, negative or not. -/
  | infinite (neg : Bool)
  /-- `± m × 2 ^ e`. -/
  | finite (neg : Bool) (m : Nat) (e : Int)
  deriving DecidableEq, Repr

/-- The number of binary digits of a natural number. -/
def bitLength (n : Nat) : Nat := n.log2 + 1

/-- `⌊n / d⌋` rounded to nearest, a tie to even. -/
def divRoundEven (n d : Nat) : Nat :=
  let q := n / d
  let r := n % d
  if 2 * r < d then q else if d < 2 * r then q + 1 else if q % 2 = 0 then q else q + 1

/-- `num / den × 2 ^ (-e)` as a fraction of naturals. -/
def scaled (num den : Nat) (e : Int) : Nat × Nat :=
  if 0 ≤ e then (num, den * Nat.pow 2 e.toNat) else (num * Nat.pow 2 e.natAbs, den)

/-- The nearest number of the format to the positive rational `num / den`, as `(m, e)`, or none
when it is past the largest finite number. -/
def FloatFormat.round (f : FloatFormat) (num den : Nat) : Option (Nat × Int) :=
  -- the exponent that puts the significand between 2^(p-1) and 2^p
  let guess : Int := (bitLength num : Int) - bitLength den - f.precision
  let e0 := if (scaled num den guess).1 < Nat.pow 2 (f.precision - 1) * (scaled num den guess).2 then
      guess - 1 else guess
  let e1 := if Nat.pow 2 f.precision * (scaled num den e0).2 ≤ (scaled num den e0).1 then e0 + 1 else e0
  let e := max e1 f.minExp
  let (n, d) := scaled num den e
  let q := divRoundEven n d
  let (q, e) := if q = Nat.pow 2 f.precision then (Nat.pow 2 (f.precision - 1), e + 1) else (q, e)
  if f.maxExp < e then none else some (q, e)

namespace Binary64

/-- Reads the bits of a binary64 number. -/
def classify (bits : UInt64) : FloatClass :=
  let neg := bits >>> 63 == 1
  let field := ((bits >>> 52) &&& 0x7FF).toNat
  let frac := (bits &&& 0xFFFFFFFFFFFFF).toNat
  if field = 0x7FF then (if frac = 0 then .infinite neg else .nan)
  else if field = 0 then .finite neg frac (-1074)
  else .finite neg (frac + Nat.pow 2 52) ((field : Int) - 1075)

/-- The bits of `± m × 2 ^ e`, for a number of the binary64 format. -/
def encode (neg : Bool) (m : Nat) (e : Int) : UInt64 :=
  let sign : UInt64 := if neg then (1 : UInt64) <<< 63 else 0
  if m = 0 then sign
  else
    -- bring the significand to 53 bits when the exponent allows it
    let k := min (53 - bitLength m) (e + 1074).toNat
    let m := m * Nat.pow 2 k
    let e := e - k
    if m < Nat.pow 2 52 then sign ||| m.toUInt64
    else sign ||| ((e + 1075).toNat.toUInt64 <<< 52) ||| (m - Nat.pow 2 52).toUInt64

/-- The bits of an infinity. -/
def infinity (neg : Bool) : UInt64 :=
  (if neg then (1 : UInt64) <<< 63 else 0) ||| ((0x7FF : UInt64) <<< 52)

/-- The bits of the quiet NaN. -/
def nan : UInt64 := 0x7FF8000000000001

end Binary64

/-- The binary64 bits of a class of number. -/
def FloatClass.bits : FloatClass → UInt64
  | .nan => Binary64.nan
  | .infinite neg => Binary64.infinity neg
  | .finite neg m e => Binary64.encode neg m e

end ExactJson
