import ExactJson.Number.Binary

/-!
# The fewest digits that read back

A positive binary64 number `m × 2 ^ e` stands for every real that rounds to it: the interval
between the midpoints to its two neighbours, ends included when `m` is even (a tie would round
to it). Below a power of two whose neighbour underneath has the next smaller exponent, the gap
underneath is half as wide.

`digits` finds the fewest significant decimal digits of a number in that interval: for one,
two, … digits it takes the two numbers of that many digits on either side of the value, and the
first count where one of them lies in the interval wins. When both do, the one nearer to the
value wins, and an exact tie goes to the even last digit. Seventeen digits always suffice.
-/

namespace ExactJson.Shortest

/-- A fraction of naturals, compared by cross-multiplication. -/
abbrev Frac := Nat × Nat

/-- `a ≤ b` for fractions. -/
def le (a b : Frac) : Bool := a.1 * b.2 ≤ b.1 * a.2

/-- `a < b` for fractions. -/
def lt (a b : Frac) : Bool := a.1 * b.2 < b.1 * a.2

/-- `c × 2 ^ e` as a fraction. -/
def pow2 (c : Nat) (e : Int) : Frac :=
  if 0 ≤ e then (c * Nat.pow 2 e.toNat, 1) else (c, Nat.pow 2 e.natAbs)

/-- `c × 10 ^ k` as a fraction. -/
def pow10 (c : Nat) (k : Int) : Frac :=
  if 0 ≤ k then (c * Nat.pow 10 k.toNat, 1) else (c, Nat.pow 10 k.natAbs)

/-- The exponent `E` with `10 ^ E ≤ x < 10 ^ (E + 1)`, for a positive fraction. -/
def decimalExponent (x : Frac) : Int :=
  let guess : Int := (toString x.1).length - (toString x.2).length
  if le (pow10 1 guess) x then guess else guess - 1

/-- The interval of reals that round to `m × 2 ^ e`, and whether its ends belong to it. -/
def interval (m : Nat) (e : Int) : Frac × Frac × Bool :=
  let narrow := m = Nat.pow 2 52 ∧ -1074 < e
  let lo := if narrow then pow2 (4 * m - 1) (e - 2) else pow2 (2 * m - 1) (e - 1)
  let hi := pow2 (2 * m + 1) (e - 1)
  (lo, hi, m % 2 = 0)

/-- The digits and exponent of the shortest decimal in the interval of `m × 2 ^ e`, searching
from `n` significant digits on, at most `fuel` more counts. -/
def search (m : Nat) (e : Int) (n : Nat) : Nat → Nat × Int
  | 0 => (m, 0)
  | fuel + 1 =>
    let v := pow2 m e
    let (lo, hi, closed) := interval m e
    let inside (c : Frac) : Bool :=
      (lt lo c || (closed && le lo c)) && (lt c hi || (closed && le c hi))
    let k := decimalExponent v - n + 1
    let unit := pow10 1 k
    -- the candidate below is t × 10^k, with t = ⌊v / 10^k⌋
    let t := (v.1 * unit.2) / (v.2 * unit.1)
    let down := inside (pow10 t k)
    let up := inside (pow10 (t + 1) k)
    if down && up then
      -- compare 2v with (2t + 1) × 10^k
      let twice := (2 * v.1, v.2)
      let mid := pow10 (2 * t + 1) k
      if lt twice mid then (t, k)
      else if lt mid twice then (t + 1, k)
      else if t % 2 = 0 then (t, k) else (t + 1, k)
    else if down then (t, k)
    else if up then (t + 1, k)
    else search m e (n + 1) fuel

/-- The shortest decimal `d × 10 ^ k` that reads back as the positive binary64 number
`m × 2 ^ e`. -/
def digits (m : Nat) (e : Int) : Nat × Int := search m e 1 17

end ExactJson.Shortest
