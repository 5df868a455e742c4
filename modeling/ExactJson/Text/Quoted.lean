import ExactJson.Text.Utf8
import ExactJson.Text.Printable

/-!
# Quoted text in messages

Messages name a character or a piece of input in quotes, escaped so that the message itself is
printable text:

* a character stands between single quotes (`'a'`, `'\''`, `'\x00'`), and a number that is no
  character stands for U+FFFD;
* a byte string stands between double quotes, each printable character as it is, the usual
  backslash escapes for the controls that have one, `\xHH` for other ASCII controls and for
  octets that start no UTF-8 sequence, and `\uHHHH` or `\UHHHHHHHH` for other characters.

Hexadecimal digits in escapes are lower case.
-/

namespace ExactJson.Quoted

/-- The escape of one character inside quotes `q`: the quote itself and the backslash take a
backslash, printable characters stand as they are, and the rest are escaped. -/
def escapeCode (q : Nat) (c : Nat) : String :=
  if c = q ∨ c = 0x5C then String.ofList ['\\', Char.ofNat c]
  else if Printable.isPrintable c then String.singleton (Char.ofNat c)
  else if c = 7 then "\\a"
  else if c = 8 then "\\b"
  else if c = 0x0C then "\\f"
  else if c = 0x0A then "\\n"
  else if c = 0x0D then "\\r"
  else if c = 9 then "\\t"
  else if c = 0x0B then "\\v"
  else if c < 0x20 ∨ c = 0x7F then "\\x" ++ hexText false 2 c
  else
    let c := if Utf8.isScalar c then c else Utf8.replacement
    if c < 0x10000 then "\\u" ++ hexText false 4 c else "\\U" ++ hexText false 8 c

/-- A character code between single quotes. A code that is no scalar value (negative, a
surrogate, above U+10FFFF) is shown as U+FFFD. -/
def quoteCode (c : Int) : String :=
  let c := if 0 ≤ c ∧ Utf8.isScalar c.toNat then c.toNat else Utf8.replacement
  "'" ++ escapeCode 0x27 c ++ "'"

/-- The escape of one UTF-8 piece inside double quotes. -/
def escapePiece : Utf8.Piece → String
  | .scalar c _ => escapeCode 0x22 c
  | .stray b => "\\x" ++ hexText false 2 b.toNat

/-- A byte string between double quotes. -/
def quote (s : Bytes) : String :=
  "\"" ++ String.join ((Utf8.pieces s).map escapePiece) ++ "\""

end ExactJson.Quoted
