import ExactJson.Text.Bytes

/-!
# UTF-8 pieces

A byte string read as UTF-8 splits into pieces: a well-formed sequence of RFC 3629 gives its
scalar value, and an octet that starts no well-formed sequence stands alone. Readers that need
characters (the UTF-16 key order, quoting) count a lone octet as U+FFFD, the replacement
character, and go on with the next octet.

`encode` is the other direction: a scalar value to its octets, with U+FFFD written for a number
that is not a scalar value (a surrogate, or above U+10FFFF).
-/

namespace ExactJson.Utf8

/-- One piece of a byte string read as UTF-8. -/
inductive Piece where
  /-- A well-formed sequence of `width` octets encoding the scalar value `code`. -/
  | scalar (code width : Nat)
  /-- An octet that starts no well-formed sequence. -/
  | stray (b : UInt8)
  deriving DecidableEq, Repr

/-- The replacement character, read in place of an octet that starts no sequence. -/
def replacement : Nat := 0xFFFD

/-- The character a piece stands for. -/
def Piece.code : Piece → Nat
  | .scalar c _ => c
  | .stray _ => replacement

/-- A continuation octet, `%x80-BF`. -/
def isTail (b : UInt8) : Bool := 0x80 ≤ b && b ≤ 0xBF

/-- Whether `b` lies in `[lo, hi]`. -/
def within (lo hi : Nat) (b : UInt8) : Bool := lo ≤ b.toNat && b.toNat ≤ hi

/-- The piece that a leading octet `b` starts, given the octets after it, and how many of those
octets the piece takes as well. The second octet of a three- or four-octet sequence has the
narrower ranges of RFC 3629 (no overlong forms, no surrogates, nothing above U+10FFFF). -/
def lead (b : UInt8) (rest : Bytes) : Piece × Nat :=
  let n := b.toNat
  if n < 0x80 then (.scalar n 1, 0)
  else if 0xC2 ≤ n ∧ n ≤ 0xDF then
    match rest with
    | b1 :: _ =>
      if isTail b1 then (.scalar ((n - 0xC0) * 0x40 + (b1.toNat - 0x80)) 2, 1) else (.stray b, 0)
    | [] => (.stray b, 0)
  else if 0xE0 ≤ n ∧ n ≤ 0xEF then
    let lo := if n = 0xE0 then 0xA0 else 0x80
    let hi := if n = 0xED then 0x9F else 0xBF
    match rest with
    | b1 :: b2 :: _ =>
      if within lo hi b1 && isTail b2 then
        (.scalar ((n - 0xE0) * 0x1000 + (b1.toNat - 0x80) * 0x40 + (b2.toNat - 0x80)) 3, 2)
      else (.stray b, 0)
    | _ => (.stray b, 0)
  else if 0xF0 ≤ n ∧ n ≤ 0xF4 then
    let lo := if n = 0xF0 then 0x90 else 0x80
    let hi := if n = 0xF4 then 0x8F else 0xBF
    match rest with
    | b1 :: b2 :: b3 :: _ =>
      if within lo hi b1 && isTail b2 && isTail b3 then
        (.scalar ((n - 0xF0) * 0x40000 + (b1.toNat - 0x80) * 0x1000 + (b2.toNat - 0x80) * 0x40
          + (b3.toNat - 0x80)) 4, 3)
      else (.stray b, 0)
    | _ => (.stray b, 0)
  else (.stray b, 0)

/-- A byte string as UTF-8 pieces, front to back. -/
def pieces : Bytes → List Piece
  | [] => []
  | b :: rest => (lead b rest).1 :: pieces (rest.drop (lead b rest).2)
termination_by s => s.length
decreasing_by simp only [List.length_drop, List.length_cons]; omega

/-- The characters of a byte string, each stray octet read as U+FFFD. -/
def codes (s : Bytes) : List Nat := (pieces s).map Piece.code

/-- Whether a number is a Unicode scalar value: at most U+10FFFF and not a surrogate. -/
def isScalar (c : Nat) : Bool := c < 0xD800 || (0xE000 ≤ c && c ≤ 0x10FFFF)

/-- The UTF-8 octets of a character; a number that is not a scalar value is written as U+FFFD. -/
def encode (c : Nat) : Bytes :=
  let c := if isScalar c then c else replacement
  if c < 0x80 then [c.toUInt8]
  else if c < 0x800 then [(0xC0 + c / 0x40).toUInt8, (0x80 + c % 0x40).toUInt8]
  else if c < 0x10000 then
    [(0xE0 + c / 0x1000).toUInt8, (0x80 + c / 0x40 % 0x40).toUInt8, (0x80 + c % 0x40).toUInt8]
  else
    [(0xF0 + c / 0x40000).toUInt8, (0x80 + c / 0x1000 % 0x40).toUInt8,
      (0x80 + c / 0x40 % 0x40).toUInt8, (0x80 + c % 0x40).toUInt8]

/-- Whether a byte string is well-formed UTF-8 throughout. -/
def isWellFormed (s : Bytes) : Bool :=
  (pieces s).all fun
    | .scalar _ _ => true
    | .stray _ => false

end ExactJson.Utf8
