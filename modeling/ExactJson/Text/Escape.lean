import ExactJson.Text.Utf8

/-!
# String escapes

Inside a JSON string a backslash starts an escape: `\"`, `\\`, `\/`, `\b`, `\f`, `\n`, `\r`,
`\t`, or `\u` with four hexadecimal digits in either case. A `\u` escape in the surrogate range
U+D800..U+DFFF is one half of a pair: the six octets after it are taken as the second half,
whose first two octets are not looked at, and whose unit must be at least U+DC00. The pair
stands for `0x10000 + (hi - 0xD800) * 0x400 + (lo - 0xDC00)`, written as UTF-8, and as U+FFFD
when that is above U+10FFFF. Any other backslash is a malformed escape.

Writing goes the other way with the fewest escapes: the quote and the backslash, line feed,
carriage return and tab by their short escapes, every other octet below 0x20 as `\u00hh`, and
every other octet (DEL, non-ASCII, malformed UTF-8) as it is.
-/

namespace ExactJson.Escape

/-- The value of a hexadecimal digit octet. -/
def hexValue? (b : UInt8) : Option Nat :=
  if 0x30 ≤ b ∧ b ≤ 0x39 then some (b.toNat - 0x30)
  else if 0x41 ≤ b ∧ b ≤ 0x46 then some (b.toNat - 0x37)
  else if 0x61 ≤ b ∧ b ≤ 0x66 then some (b.toNat - 0x57)
  else none

/-- The unit written by four hexadecimal digits. -/
def quad (a b c d : UInt8) : Option Nat := do
  pure ((← hexValue? a) * 0x1000 + (← hexValue? b) * 0x100 + (← hexValue? c) * 0x10
    + (← hexValue? d))

/-- The octet a two-character escape stands for. -/
def short? (e : UInt8) : Option UInt8 :=
  if e = 0x22 then some 0x22
  else if e = 0x5C then some 0x5C
  else if e = 0x2F then some 0x2F
  else if e = 0x62 then some 0x08
  else if e = 0x66 then some 0x0C
  else if e = 0x6E then some 0x0A
  else if e = 0x72 then some 0x0D
  else if e = 0x74 then some 0x09
  else none

/-- Whether a unit is in the surrogate range. -/
def isSurrogate (u : Nat) : Bool := 0xD800 ≤ u && u ≤ 0xDFFF

/-- The character a pair of units stands for. -/
def combine (hi lo : Nat) : Nat := 0x10000 + (hi - 0xD800) * 0x400 + (lo - 0xDC00)

/-- The content of a string with its escapes replaced, or none for a malformed escape. -/
def unescape : Bytes → Option Bytes
  | [] => some []
  | 0x5C :: 0x75 :: h1 :: h2 :: h3 :: h4 :: rest =>
    match quad h1 h2 h3 h4 with
    | none => none
    | some u =>
      if !isSurrogate u then (Utf8.encode u ++ ·) <$> unescape rest
      else match rest with
        | _ :: _ :: g1 :: g2 :: g3 :: g4 :: rest' =>
          match quad g1 g2 g3 g4 with
          | none => none
          | some v => if v < 0xDC00 then none else (Utf8.encode (combine u v) ++ ·) <$> unescape rest'
        | _ => none
  | 0x5C :: e :: rest =>
    match short? e with
    | some b => (b :: ·) <$> unescape rest
    | none => none
  | [0x5C] => none
  | b :: rest => (b :: ·) <$> unescape rest

/-- The escape of one octet written inside a string. -/
def escapeOctet (b : UInt8) : Bytes :=
  if b = 0x22 then [0x5C, 0x22]
  else if b = 0x5C then [0x5C, 0x5C]
  else if b = 0x0A then [0x5C, 0x6E]
  else if b = 0x0D then [0x5C, 0x72]
  else if b = 0x09 then [0x5C, 0x74]
  else if b < 0x20 then Bytes.ofString ("\\u00" ++ hexText false 2 b.toNat)
  else [b]

/-- The content of a string with the fewest escapes. -/
def escape (s : Bytes) : Bytes := s.flatMap escapeOctet

end ExactJson.Escape
