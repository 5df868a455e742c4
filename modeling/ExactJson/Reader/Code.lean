import ExactJson.Text.Quoted

/-!
# Character codes

The reader looks at one octet at a time. What it sees is a *code*: the octet's value, or `-1` at
the end of the input. The character classes of the grammar are predicates on codes, and
`describe` names a code in messages: `end of input`, `byte 0xHH` for any code from 0x80 up, and
the quoted character below that.
-/

namespace ExactJson.Code

/-- The code seen at the end of the input. -/
def stop : Int := -1

/-- The code a wider integer stands for. Codes are 32-bit characters, so a number outside
their range keeps its low 32 bits, read with a sign. -/
def ofWide (n : Int) : Int :=
  let low := n % 4294967296
  if low < 2147483648 then low else low - 4294967296

/-- The code of an octet, or of the end of the input. -/
def ofSight : Option UInt8 → Int
  | some b => b.toNat
  | none => stop

/-- Blanks between tokens: space, tab, line feed, carriage return. -/
def isBlank (c : Int) : Bool := c = 0x20 || c = 0x09 || c = 0x0A || c = 0x0D

/-- An ASCII digit. -/
def isDigit (c : Int) : Bool := 0x30 ≤ c && c ≤ 0x39

/-- A code that may start a numeric run: a digit, a sign or a point. -/
def isNumberStart (c : Int) : Bool := isDigit c || c = 0x2B || c = 0x2D || c = 0x2E

/-- A code that may continue a numeric run: a start code or an exponent mark. -/
def isNumberPart (c : Int) : Bool := isNumberStart c || c = 0x65 || c = 0x45

/-- An ASCII letter. -/
def isLetter (c : Int) : Bool := (0x61 ≤ c && c ≤ 0x7A) || (0x41 ≤ c && c ≤ 0x5A)

/-- A code that may start `true`, `false` or `null` in any case. -/
def isLiteralStart (c : Int) : Bool :=
  c = 0x74 || c = 0x54 || c = 0x66 || c = 0x46 || c = 0x6E || c = 0x4E

/-- A code named for messages. -/
def describe (c : Int) : String :=
  if c = stop then "end of input"
  else if 0x80 ≤ c then "byte 0x" ++ hexText true 2 c.toNat
  else Quoted.quoteCode c

end ExactJson.Code
