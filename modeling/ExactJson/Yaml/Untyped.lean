import ExactJson.Yaml.Resolve
import ExactJson.Number.Shortest
import ExactJson.Text.Quoted

/-!
# Values of no given type

A node decoded where no type is asked for becomes a value of the type its tag resolves to
(`Untyped`): null, a boolean, an integer, an unsigned integer past the signed range, a float, a
string, a time, a sequence of such values, or a map. A map whose keys are all strings by their
tags has string keys; any other map has keys of any type.

Decoding a merge keeps such values in a set of keys. Keys compare by type, then by value: a
float that is not a number equals nothing, the two zeros are equal, and a time equals a time
read with the same fields in the same zone. A zone that is a fixed offset is shared by every
reading only when the offset is a whole number of hours from -12 to +14; any other offset
makes a zone of its own at each reading, so times with it equal no other. Sequences and maps have no hash and cannot be keys (`Untyped.hashable`).

Messages write such values in the notation of the runtime (`Untyped.render`):

* a sequence as `[]interface {}{a, b}`, and a map as `map[string]interface {}{"k":v}` or
  `map[interface {}]interface {}{k:v}`, its entries sorted by key;
* a string quoted, an integer in decimal, an unsigned integer in hexadecimal after `0x`, a
  float in its shortest form (`1.5`, `1e+21`, `-0`, `+Inf`, `NaN`), a boolean as a word, and
  null as `interface {}(nil)`;
* a time as the call that builds it: `time.Date(2001, time.January, 1, 0, 0, 0, 0, time.UTC)`.
-/

namespace ExactJson.Yaml

/-- The zone of a time. -/
inductive Zone where
  /-- UTC, written `Z` or left out. -/
  | utc
  /-- The local zone, which an offset of zero is read as. -/
  | here
  /-- A fixed offset from UTC, in minutes. -/
  | offset (minutes : Int)
  deriving DecidableEq, Repr

/-- A time as it was read: its date, its clock and its zone. -/
structure Clock where
  year : Nat
  month : Nat
  day : Nat
  hour : Nat := 0
  minute : Nat := 0
  second : Nat := 0
  /-- Nanoseconds: the first nine digits of the fraction of a second. -/
  nano : Nat := 0
  zone : Zone := .utc
  deriving DecidableEq, Repr

namespace Clock

/-- The value of digits. -/
def digitsValue (ds : Bytes) : Nat := ds.foldl (fun acc b => acc * 10 + (b - 0x30).toNat) 0

/-- Reads a zone: `Z`, or an offset `±hh:mm`. -/
def readZone : Bytes → Option Zone
  | [0x5A] => some .utc
  | [sign, h1, h2, 0x3A, m1, m2] =>
    let minutes : Int := digitsValue [h1, h2] * 60 + digitsValue [m1, m2]
    if minutes == 0 then some .here
    else if sign == 0x2D then some (.offset (-minutes))
    else some (.offset minutes)
  | _ => none

/-- Reads a clock `h:m:s`, an optional fraction of a second, and what follows. -/
def readTime (s : Bytes) (c : Clock) : Option (Clock × Bytes) := do
  let (hour, rest) ← twoDigits s
  let rest ← literal 0x3A rest
  let (minute, rest) ← twoDigits rest
  let rest ← literal 0x3A rest
  let (second, rest) ← twoDigits rest
  let isDigit (b : UInt8) : Bool := 0x30 ≤ b && b ≤ 0x39
  let (nano, rest) := match rest with
    | p :: d :: more =>
      if (p == 0x2E || p == 0x2C) && isDigit d then
        let ds := (d :: more).takeWhile isDigit
        let nine := (ds.take 9) ++ List.replicate (9 - min 9 ds.length) 0x30
        (digitsValue nine, (d :: more).dropWhile isDigit)
      else (0, rest)
    | _ => (0, rest)
  pure ({ c with hour, minute, second, nano }, rest)

/-- Reads a timestamp's text into its fields: a date, then optionally a clock after `T`, `t`
or a run of blanks, with a zone after `T` or `t`. -/
def read (s : Bytes) : Option Clock := do
  let year := digitsValue (s.take 4)
  let rest ← literal 0x2D (s.drop 4)
  let (month, rest) ← twoDigits rest
  let rest ← literal 0x2D rest
  let (day, rest) ← twoDigits rest
  let c : Clock := { year, month, day }
  match rest with
  | [] => pure c
  | sep :: rest =>
    let rest := if sep == 0x20 then rest.dropWhile (· == 0x20) else rest
    let (c, rest) ← readTime rest c
    if sep == 0x20 then
      if rest.isEmpty then pure c else none
    else
      let zone ← readZone rest
      pure { c with zone }

/-- The English names of the months. -/
def monthNames : List String :=
  ["January", "February", "March", "April", "May", "June", "July", "August", "September",
    "October", "November", "December"]

/-- The call that builds the time, as the runtime writes it. -/
def render (c : Clock) : String :=
  let month := match monthNames[c.month - 1]? with
    | some name => "time." ++ name
    | none => toString c.month
  let zone := match c.zone with
    | .utc => "time.UTC"
    | .here => "time.Local"
    | .offset _ => "time.Location(\"\")"
  "time.Date(" ++ ", ".intercalate [toString c.year, month, toString c.day, toString c.hour,
    toString c.minute, toString c.second, toString c.nano, zone] ++ ")"

/-- The days from 1 January of year 1 to the date, in the Gregorian calendar carried back. -/
def dayNumber (c : Clock) : Int :=
  let y : Int := (c.year : Int) - 1
  let before := ([31, 28, 31, 30, 31, 30, 31, 31, 30, 31, 30, 31].take (c.month - 1)).foldl (· + ·) 0
  let leap := c.year % 4 == 0 && (c.year % 100 != 0 || c.year % 400 == 0)
  365 * y + y / 4 - y / 100 + y / 400 + before + (if leap && 2 < c.month then 1 else 0) +
    ((c.day : Int) - 1)

/-- The whole seconds from the start of year 1 in UTC to the time; the local zone is UTC. -/
def instant (c : Clock) : Int :=
  let offset : Int := match c.zone with
    | .offset minutes => minutes * 60
    | _ => 0
  c.dayNumber * 86400 + c.hour * 3600 + c.minute * 60 + c.second - offset

/-- The rank of a zone, for ordering times that differ in their zone only: UTC first. -/
def zoneRank : Zone → Int
  | .utc => 0
  | .here => 1
  | .offset minutes => 2 + minutes

/-- The order of times as keys: by nanoseconds first, then by instant, then by zone; the
runtime keeps a time as its nanoseconds, its whole seconds and its zone, and compares them in
that order. -/
def less (a b : Clock) : Bool :=
  a.nano < b.nano || (a.nano == b.nano &&
    (a.instant < b.instant || (a.instant == b.instant && zoneRank a.zone < zoneRank b.zone)))

end Clock

/-- A value decoded with no type asked for. -/
inductive Untyped where
  | null
  | bool (b : Bool)
  | int (n : Int)
  /-- An unsigned integer, past the range of signed ones. -/
  | uint (n : Nat)
  | float (f : FloatClass)
  | text (s : Bytes)
  | time (c : Clock)
  | list (items : List Untyped)
  /-- A map, with string keys or keys of any type, and its entries. -/
  | map (stringKeys : Bool) (entries : List (Untyped × Untyped))
  deriving Repr, Inhabited

namespace Untyped

/-- The value a resolved scalar stands for, given its text. -/
def ofResolved (text : Bytes) : Resolved → Untyped
  | .null => .null
  | .bool b => .bool b
  | .int n => .int n
  | .uint n => .uint n
  | .float f => .float f
  | .timestamp =>
    match Clock.read text with
    | some c => .time c
    | none => .text text
  | .text s => .text s

/-- Whether a value has a hash, and so can be a key of a set or a map. -/
def hashable : Untyped → Bool
  | .list _ | .map .. => false
  | _ => true

/-- The name of the type of a sequence or a map, as the runtime writes it. -/
def typeName : Untyped → String
  | .list _ => "[]interface \x7b\x7d"
  | .map true _ => "map[string]interface \x7b\x7d"
  | .map false _ => "map[interface \x7b\x7d]interface \x7b\x7d"
  | _ => "interface \x7b\x7d"

/-- Two floats are equal keys: the same number, the two zeros alike, and never one that is not
a number. -/
def floatKeyEq : FloatClass → FloatClass → Bool
  | .finite a m e, .finite b n f => (m == 0 && n == 0) || (a == b && m == n && e == f)
  | .infinite a, .infinite b => a == b
  | _, _ => false

/-- Two keys are the same key: the same type and an equal value. -/
def sameKey : Untyped → Untyped → Bool
  | .null, .null => true
  | .bool a, .bool b => a == b
  | .int a, .int b => a == b
  | .uint a, .uint b => a == b
  | .float a, .float b => floatKeyEq a b
  | .text a, .text b => a == b
  | .time a, .time b =>
    a == b && match a.zone with
      | .offset m => m % 60 == 0 && -720 ≤ m && m ≤ 840
      | _ => true
  | _, _ => false

/-- The rank of a key's type, for sorting keys of different types: null, then strings,
unsigned integers, integers, floats, booleans and times. -/
def typeRank : Untyped → Nat
  | .null => 0
  | .text _ => 1
  | .uint _ => 2
  | .int _ => 3
  | .float _ => 4
  | .bool _ => 5
  | .time _ => 6
  | .list _ => 7
  | .map .. => 8

/-- The order of floats as keys: not-a-number first, then by value. -/
def floatLess : FloatClass → FloatClass → Bool
  | .nan, .nan => false
  | .nan, _ => true
  | _, .nan => false
  | a, b =>
    let rank : FloatClass → Int × Nat × Int
      | .infinite true => (-2, 0, 0)
      | .infinite false => (2, 0, 0)
      | .finite neg m e => (if m == 0 then 0 else if neg then -1 else 1, m, e)
      | .nan => (0, 0, 0)
    let (sa, ma, ea) := rank a
    let (sb, mb, eb) := rank b
    if sa != sb then sa < sb
    else if sa == 0 || sa == 2 || sa == -2 then false
    else
      -- compare m × 2 ^ e, the larger first for negatives
      let (na, da) := Shortest.pow2 ma ea
      let (nb, db) := Shortest.pow2 mb eb
      if sa == 1 then na * db < nb * da else nb * da < na * db

/-- The lexicographic order of lists, given the order of their elements. -/
def listLess {α : Type} (less : α → α → Bool) : List α → List α → Bool
  | [], [] => false
  | [], _ :: _ => true
  | _ :: _, [] => false
  | a :: as, b :: bs => less a b || (!less b a && listLess less as bs)

/-- The order of keys when a map is written: by type, then by value. -/
def keyLess (a b : Untyped) : Bool :=
  match a, b with
  | .bool x, .bool y => !x && y
  | .int x, .int y => x < y
  | .uint x, .uint y => x < y
  | .float x, .float y => floatLess x y
  | .text x, .text y => listLess (fun p q => p < q) x y
  | .time x, .time y => x.less y
  | _, _ => a.typeRank < b.typeRank

end Untyped

/-- Two decimal digits at least: the exponent of a float in its exponent form. -/
def exponentText (e : Int) : String :=
  let digits := toString e.natAbs
  (if e < 0 then "-" else "+") ++ (if digits.length < 2 then "0" ++ digits else digits)

/-- A positive float `d × 10 ^ k`, `d` without trailing zeros, in its shortest form: plain when
its exponent is from -4 to 5, and in exponent form otherwise. -/
def shortestForm (ds : List Char) (k : Int) : String :=
  let nd : Int := ds.length
  let dp := nd + k
  let exp := dp - 1
  if exp < -4 || 6 ≤ exp then
    let head := String.ofList (ds.take 1)
    let tail := String.ofList (ds.drop 1)
    head ++ (if tail.isEmpty then "" else "." ++ tail) ++ "e" ++ exponentText exp
  else
    let digitAt (i : Int) : Char := if 0 ≤ i && i < nd then ds.getD i.toNat '0' else '0'
    let whole := if 0 < dp then String.ofList ((List.range dp.toNat).map fun (i : Nat) => digitAt (Int.ofNat i))
      else "0"
    let places := max (nd - dp) 0
    let frac := String.ofList ((List.range places.toNat).map fun (i : Nat) => digitAt (dp + Int.ofNat i))
    whole ++ (if places == 0 then "" else "." ++ frac)

/-- Strips the trailing zeros of `d × 10 ^ k`. -/
def stripZeros : Nat → Nat → Int → Nat × Int
  | 0, d, k => (d, k)
  | fuel + 1, d, k => if d != 0 && d % 10 == 0 then stripZeros fuel (d / 10) (k + 1) else (d, k)

/-- A float in the runtime's shortest notation. -/
def floatNotation : FloatClass → String
  | .nan => "NaN"
  | .infinite neg => if neg then "-Inf" else "+Inf"
  | .finite neg m e =>
    let sign := if neg then "-" else ""
    if m == 0 then sign ++ "0"
    else
      let (d, k) := Shortest.digits m e
      let (d, k) := stripZeros 20 d k
      sign ++ shortestForm (toString d).toList k

mutual

/-- A value in the runtime's notation, as an element of a sequence or map. -/
def Untyped.render : Untyped → String
  | .null => "interface \x7b\x7d(nil)"
  | .bool b => if b then "true" else "false"
  | .int n => toString n
  | .uint n => "0x" ++ String.ofList (Nat.toDigits 16 n)
  | .float f => floatNotation f
  | .text s => Quoted.quote s
  | .time c => c.render
  | .list items => "[]interface \x7b\x7d\x7b" ++ ", ".intercalate (renderItems items) ++ "\x7d"
  | .map stringKeys entries =>
    let sorted := (renderEntries entries).mergeSort fun a b => Untyped.keyLess a.1 b.1
    (Untyped.map stringKeys []).typeName ++ "\x7b" ++ ", ".intercalate (sorted.map (·.2)) ++ "\x7d"

/-- The items of a sequence in the runtime's notation. -/
def renderItems : List Untyped → List String
  | [] => []
  | v :: rest => v.render :: renderItems rest

/-- The entries of a map in the runtime's notation, each with its key. -/
def renderEntries : List (Untyped × Untyped) → List (Untyped × String)
  | [] => []
  | (k, v) :: rest => (k, k.render ++ ":" ++ v.render) :: renderEntries rest

end

end ExactJson.Yaml
