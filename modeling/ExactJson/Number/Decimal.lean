import ExactJson.Number.Integer

/-!
# Exact decimals

A decimal is an integer coefficient scaled by a power of ten, `coeff × 10 ^ exp`. Different
representations can denote the same number (`15 × 10⁻¹` and `150 × 10⁻²`); every observation the
library makes of a decimal depends only on its value, and `normalize` picks the representation
with no trailing zero in the coefficient (and exponent `0` for zero).

The *plain* text of a decimal is positional, never with an exponent: the integer part, then a
point and the fraction digits with trailing zeros removed (no point when none remain), a `0`
before the point below one, and `-` only for a negative value, so that negative zero reads `0`.
`render` is the text written into documents: the plain text, with `.0` added when the plain text
has no point and would read back as a 64-bit integer, so that a decimal stays a decimal when it
is read again.
-/

namespace ExactJson

/-- An exact decimal number, `coeff × 10 ^ exp`. -/
structure Decimal where
  /-- The coefficient. -/
  coeff : Int
  /-- The power of ten it is scaled by. -/
  exp : Int
  deriving DecidableEq, Repr

namespace Decimal

/-- The decimal of an integer. -/
def ofInt (n : Int) : Decimal := ⟨n, 0⟩

/-- Strips trailing zeros from a nonzero coefficient, raising the exponent for each. -/
def stripZeros (c : Int) (e : Int) : Int × Int :=
  if h : c ≠ 0 ∧ c % 10 = 0 then stripZeros (c / 10) (e + 1) else (c, e)
termination_by c.natAbs
decreasing_by
  obtain ⟨hc, h10⟩ := h
  have : (c / 10).natAbs < c.natAbs := by omega
  exact this

/-- The representation with no trailing zero in the coefficient; zero is `0 × 10⁰`. -/
def normalize (d : Decimal) : Decimal :=
  if d.coeff = 0 then ⟨0, 0⟩ else
    let (c, e) := stripZeros d.coeff d.exp
    ⟨c, e⟩

/-- Whether two decimals denote the same number. -/
def sameValue (a b : Decimal) : Bool := a.normalize == b.normalize

/-- The decimal digits of a natural number. -/
def digits (n : Nat) : List Char := (toString n).toList

/-- The plain text of a decimal. -/
def plain (d : Decimal) : String :=
  let d := d.normalize
  let sign := if d.coeff < 0 then "-" else ""
  if 0 ≤ d.exp then sign ++ toString (d.coeff.natAbs * Nat.pow 10 d.exp.toNat)
  else
    let ds := digits d.coeff.natAbs
    let k := d.exp.natAbs
    let (whole, frac) :=
      if k < ds.length then (ds.take (ds.length - k), ds.drop (ds.length - k))
      else (['0'], List.replicate (k - ds.length) '0' ++ ds)
    sign ++ String.ofList whole ++ "." ++ String.ofList frac

/-- Whether plain text with no point reads back as a 64-bit integer. -/
def readsAsInteger (s : String) : Bool := (Integer.readInt64? (Bytes.ofString s)).isSome

/-- The text of a decimal in a document: the plain text, with `.0` added when it has no point and
would read back as a 64-bit integer. -/
def render (d : Decimal) : String :=
  let s := d.plain
  if s.contains '.' then s
  else if readsAsInteger s then s ++ ".0"
  else s

end Decimal

end ExactJson
