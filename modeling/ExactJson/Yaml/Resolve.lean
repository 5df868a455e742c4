import ExactJson.Number.FloatText

/-!
# Resolving scalars

A scalar is text; its tag says what the text stands for. A plain scalar with no tag is
resolved by its look:

* `""`, `~`, `null`, `Null`, `NULL` are null, and `true`/`false` in three spellings booleans;
* `.inf`, `-.inf`, `.nan` and their spellings are the special floats;
* text that starts with a digit or a sign is a timestamp (`2001-12-14`, with an optional time),
  an integer (decimal, or with a `0x`, `0o`, `0b` or a bare `0` base prefix, underscores left
  out), an integer past 64 signed bits that fits 64 unsigned ones, a float of the form
  `[-+]?(.D+|D+(.D*)?)([eE][-+]?D+)?`, or last a `0b` or `0o` prefix with the sign after it
  (`0b-101`, `0o+17`) and an integer within 64 signed bits, in that order;
* text that starts with `.` may be a float;
* anything else is a string.

A scalar with an explicit standard tag is resolved the same way and must come out as that
tag, except that an integer may be taken as a float; a string tag takes any text.
-/

namespace ExactJson.Yaml

/-- What a scalar stands for. -/
inductive Resolved where
  | null
  | bool (b : Bool)
  /-- An integer that fits 64 signed bits. -/
  | int (n : Int)
  /-- An integer past 64 signed bits that fits 64 unsigned bits. -/
  | uint (n : Nat)
  | float (f : FloatClass)
  | timestamp
  | text (s : Bytes)
  deriving Repr

namespace Tag

/-- The prefix of the standard tags' full names. -/
def standardPrefix : Bytes := Bytes.ofString "tag:yaml.org,2002:"

/-- A tag's short name: `!!name` for a standard tag. -/
def short (t : Bytes) : Bytes :=
  if standardPrefix.isPrefixOf t then Bytes.ofString "!!" ++ t.drop standardPrefix.length else t

/-- The standard tags by short name. -/
def str : Bytes := Bytes.ofString "!!str"
/-- The null tag. -/
def null : Bytes := Bytes.ofString "!!null"
/-- The boolean tag. -/
def bool : Bytes := Bytes.ofString "!!bool"
/-- The integer tag. -/
def int : Bytes := Bytes.ofString "!!int"
/-- The float tag. -/
def float : Bytes := Bytes.ofString "!!float"
/-- The timestamp tag. -/
def timestamp : Bytes := Bytes.ofString "!!timestamp"
/-- The binary tag. -/
def binary : Bytes := Bytes.ofString "!!binary"
/-- The merge key tag. -/
def merge : Bytes := Bytes.ofString "!!merge"
/-- The mapping tag. -/
def map : Bytes := Bytes.ofString "!!map"
/-- The sequence tag. -/
def seq : Bytes := Bytes.ofString "!!seq"

/-- The tags a scalar can be resolved against. -/
def resolvable (t : Bytes) : Bool :=
  t.isEmpty || t == str || t == bool || t == int || t == float || t == null || t == timestamp

end Tag

/-- The words with a fixed meaning. -/
def fixedWords : List (String × Bytes × Resolved) :=
  [("true", Tag.bool, .bool true), ("True", Tag.bool, .bool true), ("TRUE", Tag.bool, .bool true),
   ("false", Tag.bool, .bool false), ("False", Tag.bool, .bool false),
   ("FALSE", Tag.bool, .bool false),
   ("", Tag.null, .null), ("~", Tag.null, .null), ("null", Tag.null, .null),
   ("Null", Tag.null, .null), ("NULL", Tag.null, .null),
   (".nan", Tag.float, .float .nan), (".NaN", Tag.float, .float .nan),
   (".NAN", Tag.float, .float .nan),
   (".inf", Tag.float, .float (.infinite false)), (".Inf", Tag.float, .float (.infinite false)),
   (".INF", Tag.float, .float (.infinite false)),
   ("+.inf", Tag.float, .float (.infinite false)), ("+.Inf", Tag.float, .float (.infinite false)),
   ("+.INF", Tag.float, .float (.infinite false)),
   ("-.inf", Tag.float, .float (.infinite true)), ("-.Inf", Tag.float, .float (.infinite true)),
   ("-.INF", Tag.float, .float (.infinite true))]

/-- What the first character of a plain scalar hints at. -/
inductive Hint where
  | none | word | point | number

/-- The hint of the first character. -/
def hintOf (s : Bytes) : Hint :=
  match s.head? with
  | none => .word
  | some b =>
    if b == 0x2B || b == 0x2D || (0x30 ≤ b && b ≤ 0x39) then .number
    else if b == 0x2E then .point
    else if (Bytes.ofString "yYnNtTfFoO~").contains b then .word
    else .none

/-- Reads digits in a base into a natural number. -/
def digitsIn (base : Nat) (s : Bytes) : Option Nat :=
  s.foldlM (fun acc b =>
    let d := if 0x30 ≤ b && b ≤ 0x39 then (b - 0x30).toNat
      else if 0x61 ≤ Bytes.lowerOctet b && Bytes.lowerOctet b ≤ 0x7A then
        (Bytes.lowerOctet b - 0x61).toNat + 10
      else 36
    if d < base then some (acc * base + d) else none) 0

/-- An unsigned integer with an optional base prefix, below `2 ^ 64`. -/
def readUnsignedPrefixed (s : Bytes) : Option Nat := do
  if s.isEmpty then none
  let lower := s.map Bytes.lowerOctet
  let (base, body) :=
    if s.head? == some 0x30 then
      if 3 ≤ s.length && lower[1]? == some 0x62 then (2, s.drop 2)
      else if 3 ≤ s.length && lower[1]? == some 0x6F then (8, s.drop 2)
      else if 3 ≤ s.length && lower[1]? == some 0x78 then (16, s.drop 2)
      else (8, s.drop 1)
    else (10, s)
  let n ← digitsIn base body
  if n < Nat.pow 2 64 then some n else none

/-- A signed integer with an optional base prefix, within 64 signed bits. -/
def readSignedPrefixed (s : Bytes) : Option Int := do
  let (neg, body) :=
    match s with
    | 0x2B :: rest => (false, rest)
    | 0x2D :: rest => (true, rest)
    | _ => (false, s)
  let n ← readUnsignedPrefixed body
  if neg then (if n ≤ Nat.pow 2 63 then some (-(n : Int)) else none)
  else if n < Nat.pow 2 63 then some n else none

/-- An integer in a base with an optional sign, within 64 signed bits; at least one digit. -/
def readSignedIn (base : Nat) (s : Bytes) : Option Int := do
  let (neg, body) :=
    match s with
    | 0x2B :: rest => (false, rest)
    | 0x2D :: rest => (true, rest)
    | _ => (false, s)
  if body.isEmpty then none
  let n ← digitsIn base body
  if neg then (if n ≤ Nat.pow 2 63 then some (-(n : Int)) else none)
  else if n < Nat.pow 2 63 then some n else none

/-- An integer after a lower-case `0b` or `0o` prefix, its sign after the prefix. -/
def readSignAfterPrefix : Bytes → Option Int
  | 0x30 :: 0x62 :: rest => readSignedIn 2 rest
  | 0x30 :: 0x6F :: rest => readSignedIn 8 rest
  | _ => none

/-- The text has the form `[-+]?(.D+|D+(.D*)?)([eE][-+]?D+)?`. -/
def looksLikeFloat (s : Bytes) : Bool :=
  let isDigit (b : UInt8) : Bool := 0x30 ≤ b && b ≤ 0x39
  let s := match s with
    | 0x2B :: rest => rest
    | 0x2D :: rest => rest
    | _ => s
  let mantEnd := s.findIdx (fun b => b == 0x65 || b == 0x45)
  let mant := s.take mantEnd
  let expText := s.drop mantEnd
  let mantOk :=
    match mant with
    | 0x2E :: frac => !frac.isEmpty && frac.all isDigit
    | _ =>
      let whole := mant.takeWhile isDigit
      let rest := mant.drop whole.length
      !whole.isEmpty && (rest.isEmpty || (rest.head? == some 0x2E && (rest.drop 1).all isDigit))
  let expOk :=
    match expText with
    | [] => true
    | _ :: e =>
      let e := match e with
        | 0x2B :: r => r
        | 0x2D :: r => r
        | _ => e
      !e.isEmpty && e.all isDigit
  mantOk && expOk

/-- Reads float text as a binary64 number; text out of range is no number. -/
def readFinite? (s : Bytes) : Option FloatClass :=
  match readFloatText FloatFormat.binary64 s with
  | some (c, false) => some c
  | _ => none

/-- Reads one or two digits. -/
def twoDigits (s : Bytes) : Option (Nat × Bytes) :=
  let isDigit (b : UInt8) : Bool := 0x30 ≤ b && b ≤ 0x39
  match s with
  | a :: b :: rest =>
    if isDigit a && isDigit b then some ((a - 0x30).toNat * 10 + (b - 0x30).toNat, rest)
    else if isDigit a then some ((a - 0x30).toNat, b :: rest) else none
  | [a] => if isDigit a then some ((a - 0x30).toNat, []) else none
  | [] => none

/-- Takes one octet that must be `c`. -/
def literal (c : UInt8) : Bytes → Option Bytes
  | b :: rest => if b == c then some rest else none
  | [] => none

/-- The days of a month. -/
def daysIn (year month : Nat) : Nat :=
  if month == 2 then (if year % 4 == 0 && (year % 100 != 0 || year % 400 == 0) then 29 else 28)
  else if month == 4 || month == 6 || month == 9 || month == 11 then 30 else 31

/-- Reads `YYYY-M-D`, checking the month and day. -/
def readDate (s : Bytes) : Option Bytes := do
  let isDigit (b : UInt8) : Bool := 0x30 ≤ b && b ≤ 0x39
  let yearText := s.take 4
  if yearText.length != 4 || !yearText.all isDigit then none
  let year := yearText.foldl (fun acc b => acc * 10 + (b - 0x30).toNat) 0
  let rest ← literal 0x2D (s.drop 4)
  let (month, rest) ← twoDigits rest
  if month == 0 || 12 < month then none
  let rest ← literal 0x2D rest
  let (day, rest) ← twoDigits rest
  if day == 0 || daysIn year month < day then none
  pure rest

/-- Reads `h:m:s` with an optional fraction of a second. -/
def readClock (s : Bytes) : Option Bytes := do
  let isDigit (b : UInt8) : Bool := 0x30 ≤ b && b ≤ 0x39
  let (hour, rest) ← twoDigits s
  if 24 ≤ hour then none
  let rest ← literal 0x3A rest
  let (minute, rest) ← twoDigits rest
  if 60 ≤ minute then none
  let rest ← literal 0x3A rest
  let (second, rest) ← twoDigits rest
  if 60 ≤ second then none
  match rest with
  | p :: d :: more =>
    if (p == 0x2E || p == 0x2C) && isDigit d then pure ((d :: more).dropWhile isDigit)
    else pure rest
  | _ => pure rest

/-- Reads a zone: `Z` or `±hh:mm`. -/
def readZone (s : Bytes) : Option Bytes :=
  let isDigit (b : UInt8) : Bool := 0x30 ≤ b && b ≤ 0x39
  match s with
  | 0x5A :: rest => some rest
  | sign :: h1 :: h2 :: colon :: m1 :: m2 :: rest =>
    if (sign == 0x2B || sign == 0x2D) && colon == 0x3A && isDigit h1 && isDigit h2 &&
        isDigit m1 && isDigit m2 &&
        (h1 - 0x30).toNat * 10 + (h2 - 0x30).toNat ≤ 24 &&
        (m1 - 0x30).toNat * 10 + (m2 - 0x30).toNat ≤ 60 then some rest
    else none
  | _ => none

/-- The text is a timestamp: a date, a date and time with `T` or `t` and a zone, or a date and
time with a run of spaces between them and no zone. -/
def isTimestamp (s : Bytes) : Bool :=
  let isDigit (b : UInt8) : Bool := 0x30 ≤ b && b ≤ 0x39
  let lead := s.takeWhile isDigit
  if lead.length != 4 || s[4]? != some 0x2D then false
  else
    match readDate s with
    | none => false
    | some [] => true
    | some (sep :: rest) =>
      if sep == 0x54 || sep == 0x74 then
        (readClock rest >>= readZone) == some []
      else if sep == 0x20 then readClock (rest.dropWhile (· == 0x20)) == some []
      else false

/-- Resolves a plain scalar against a resolvable tag, without checking the result. -/
def resolveLook (tag input : Bytes) : Bytes × Resolved :=
  let hint := hintOf input
  let fallback := (Tag.str, Resolved.text input)
  if tag == Tag.str || tag == Tag.binary then fallback
  else match hint with
    | .none => fallback
    | _ =>
      match fixedWords.find? (fun w => Bytes.ofString w.1 == input) with
      | some (_, t, r) => (t, r)
      | none =>
        match hint with
        | .point =>
          match readFinite? input with
          | some f => (Tag.float, .float f)
          | none => fallback
        | .number =>
          if (tag.isEmpty || tag == Tag.timestamp) && isTimestamp input then
            (Tag.timestamp, .timestamp)
          else
            let plain := input.filter (· != 0x5F)
            match readSignedPrefixed plain with
            | some n => (Tag.int, .int n)
            | none =>
              match readUnsignedPrefixed plain with
              | some n => (Tag.int, .uint n)
              | none =>
                match (if looksLikeFloat plain then readFinite? plain else none) with
                | some f => (Tag.float, .float f)
                | none =>
                  match readSignAfterPrefix plain with
                  | some n => (Tag.int, .int n)
                  | none => fallback
        | _ => fallback

/-- The binary64 number nearest an integer. -/
def floatOfInt (n : Int) : FloatClass :=
  if n = 0 then .finite false 0 0
  else match FloatFormat.binary64.round n.natAbs 1 with
    | some (m, e) => .finite (n < 0) m e
    | none => .infinite (n < 0)

/-- Resolves a scalar with its tag: the resolved tag and value, or the text of the fault when
an explicit tag does not fit the text. A tag that is not resolvable keeps the text. -/
def resolve (tag input : Bytes) : Except Bytes (Bytes × Resolved) :=
  let tag := Tag.short tag
  if !Tag.resolvable tag then .ok (tag, .text input)
  else
    let (rtag, out) := resolveLook tag input
    if tag.isEmpty || tag == rtag || tag == Tag.str || tag == Tag.binary then .ok (rtag, out)
    else match tag == Tag.float, out with
      | true, .int n => .ok (Tag.float, .float (floatOfInt n))
      | _, _ =>
        .error (Bytes.ofString "cannot decode " ++ Tag.short rtag ++ Bytes.ofString " `" ++ input ++
          Bytes.ofString "` as a " ++ Tag.short tag)

end ExactJson.Yaml
