import ExactJson.Text.Utf8

/-!
# UTF-16 code units and their order

Keys are ordered by their UTF-16 code units, as RFC 8785 asks: each character of the key
(a stray octet counts as U+FFFD) becomes one unit, or two surrogate units above U+FFFF, and two
keys compare as their unit sequences do, lexicographically. Below U+10000 this is the order of
code points; above it the surrogates sort below U+E000..U+FFFF, which is where the order of
units and the order of octets part.
-/

namespace ExactJson.Utf16

/-- The UTF-16 code units of one character. -/
def unitsOf (c : Nat) : List Nat :=
  if c < 0x10000 then [c]
  else [0xD800 + (c - 0x10000) / 0x400, 0xDC00 + (c - 0x10000) % 0x400]

/-- The UTF-16 code units of a byte string read as UTF-8. -/
def units (s : Bytes) : List Nat := (Utf8.codes s).flatMap unitsOf

/-- Lexicographic comparison of two unit sequences; a proper prefix comes first. -/
def compareUnitLists : List Nat → List Nat → Ordering
  | [], [] => .eq
  | [], _ :: _ => .lt
  | _ :: _, [] => .gt
  | a :: as, b :: bs => if a < b then .lt else if b < a then .gt else compareUnitLists as bs

/-- The order of keys: by UTF-16 code units. -/
def compare (s t : Bytes) : Ordering := compareUnitLists (units s) (units t)

end ExactJson.Utf16
