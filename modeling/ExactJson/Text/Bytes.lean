/-!
# Byte strings

Documents, keys and string values are sequences of octets. Nothing forces them to be
well-formed UTF-8, so the library keeps them as `Bytes`, a list of `UInt8`, and turns to
`String` only for text it writes itself. This module holds the conversions every other module
needs: the UTF-8 octets of a `String`, decimal and hexadecimal digits, and ASCII case folding.
-/

namespace ExactJson

/-- A byte string: the content of a document, of a key or of a string value. -/
abbrev Bytes := List UInt8

namespace Bytes

/-- The UTF-8 octets of a string. -/
def ofString (s : String) : Bytes := s.toUTF8.toList

/-- The decimal digits of an integer, with a leading `-` when it is negative. -/
def ofInt (n : Int) : Bytes := ofString (toString n)

/-- The octet of an ASCII character. -/
def ascii (c : Char) : UInt8 := c.toNat.toUInt8

/-- Whether every octet is ASCII. -/
def isAscii (s : Bytes) : Bool := s.all (· < 0x80)

/-- Whether the byte string holds the octet `b` somewhere. -/
def holds (s : Bytes) (b : UInt8) : Bool := s.contains b

/-- ASCII lower case of one octet; every other octet is kept. -/
def lowerOctet (b : UInt8) : UInt8 :=
  if 0x41 ≤ b ∧ b ≤ 0x5A then b + 0x20 else b

/-- Equality up to ASCII case. -/
def equalsFolded (s t : Bytes) : Bool := s.map lowerOctet == t.map lowerOctet

end Bytes

/-- Hexadecimal digits of `n`, most significant first, at least `width` of them. -/
def hexText (upper : Bool) (width n : Nat) : String :=
  let digits := Nat.toDigits 16 n
  let digits := if upper then digits.map Char.toUpper else digits
  String.ofList (List.replicate (width - digits.length) '0' ++ digits)

end ExactJson
