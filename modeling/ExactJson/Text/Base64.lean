import ExactJson.Text.Bytes

/-!
# Base64

The standard base64 encoding writes three octets as four characters of the alphabet
`A`–`Z`, `a`–`z`, `0`–`9`, `+`, `/`, each standing for six bits. A last group of one or two
octets is written as two or three characters and padded with `=` to four.

Decoding here is lenient in two ways only: line feeds and carriage returns are left out
wherever they stand, and the bits a padded group does not use may be anything. Anything else is
strict: the text must come in whole groups of four, `=` may only pad the last group, and nothing
may follow it.
-/

namespace ExactJson

namespace Base64

/-- The six bits a character of the alphabet stands for. -/
def sextet (c : UInt8) : Option Nat :=
  if 0x41 ≤ c && c ≤ 0x5A then some (c - 0x41).toNat
  else if 0x61 ≤ c && c ≤ 0x7A then some ((c - 0x61).toNat + 26)
  else if 0x30 ≤ c && c ≤ 0x39 then some ((c - 0x30).toNat + 52)
  else if c == 0x2B then some 62
  else if c == 0x2F then some 63
  else none

/-- The padding character `=`. -/
def pad : UInt8 := 0x3D

/-- The three octets of a 24-bit value, the high one first. -/
def octets (v : Nat) : Bytes :=
  [(v / 65536 % 256).toUInt8, (v / 256 % 256).toUInt8, (v % 256).toUInt8]

/-- Decodes groups of four characters, line breaks already left out. -/
def groups : Bytes → Option Bytes
  | [] => some []
  | [a, b, c, d] =>
    match sextet a, sextet b, sextet c, sextet d with
    | some w, some x, some y, some z => some (octets (((w * 64 + x) * 64 + y) * 64 + z))
    | some w, some x, some y, none =>
      if d == pad then some ((octets (((w * 64 + x) * 64 + y) * 64)).take 2) else none
    | some w, some x, none, none =>
      if c == pad && d == pad then some ((octets ((w * 64 + x) * 4096)).take 1) else none
    | _, _, _, _ => none
  | a :: b :: c :: d :: rest =>
    match sextet a, sextet b, sextet c, sextet d with
    | some w, some x, some y, some z =>
      (groups rest).map (octets (((w * 64 + x) * 64 + y) * 64 + z) ++ ·)
    | _, _, _, _ => none
  | _ => none

end Base64

/-- Decodes base64 text into its octets; none when the text is no base64. -/
def decodeBase64 (text : Bytes) : Option Bytes :=
  Base64.groups (text.filter fun c => c != 0x0A && c != 0x0D)

end ExactJson
