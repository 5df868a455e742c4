import ExactJson.Value.Basic
import ExactJson.Number.Shortest

/-!
# Plain host data

Host programs hand the library plain data: nothing, booleans, signed and unsigned integers,
binary floating-point numbers, decimals, strings, maps with string keys, lists, and values of
the model itself. `Datum` is that data, and `Datum.toValue` turns it into a value:

* integers that fit 64 signed bits become integers, and larger unsigned ones decimals;
* a float becomes the decimal of the fewest digits that read back to it (zero for both zeros),
  and NaN or an infinity has no value;
* a map becomes an object whose keys are set in byte order, and the first entry in that order
  that has no value fails the map;
* anything else the host holds has no value, and is named by its type.

`Value.toDatum` goes back, forgetting the order of keys.
-/

namespace ExactJson

/-- Plain host data. -/
inductive Datum where
  /-- Nothing at all. -/
  | nothing
  /-- A boolean. -/
  | bool (b : Bool)
  /-- A signed integer of at most 64 bits, or an unsigned one of at most 32. -/
  | int (n : Int64)
  /-- An unsigned integer of 64 bits. -/
  | uint (n : UInt64)
  /-- A binary64 floating-point number, by its bits. -/
  | float (bits : UInt64)
  /-- A decimal. -/
  | decimal (d : Decimal)
  /-- A string. -/
  | string (s : Bytes)
  /-- A map from strings, its keys distinct. -/
  | map (entries : List (Bytes × Datum))
  /-- A list. -/
  | list (items : List Datum)
  /-- A value of the model. -/
  | value (v : Value)
  /-- Data of a host type that has no JSON form. -/
  | unsupported (typeName : String)
  deriving Inhabited

/-- Byte order of byte strings: lexicographic, a proper prefix first. -/
def Bytes.le : Bytes → Bytes → Bool
  | [], _ => true
  | _ :: _, [] => false
  | a :: as, b :: bs => a < b || (a == b && Bytes.le as bs)

namespace Datum

/-- The failure for data with no JSON form. -/
def refuse (message : String) : Failure := Failure.make .unsupportedValue (-1) message

/-- The value of a float, given by its bits. -/
def floatValue (bits : UInt64) : Except Failure Value :=
  match Binary64.classify bits with
  | .nan => .error (refuse "non-finite number NaN")
  | .infinite neg => .error (refuse (if neg then "non-finite number -Inf" else "non-finite number +Inf"))
  | .finite neg m e =>
    if m = 0 then .ok (.dec ⟨0, 0⟩)
    else
      let d := Shortest.digits m e
      .ok (.dec ⟨if neg then -(d.1 : Int) else d.1, d.2⟩)

mutual

/-- The value of host data. -/
def toValue : Datum → Except Failure Value
  | .nothing => .ok .null
  | .bool b => .ok (.bool b)
  | .int n => .ok (.int n)
  | .uint n =>
    if n.toNat < Nat.pow 2 63 then .ok (.int (Int64.ofInt n.toNat)) else .ok (.dec ⟨n.toNat, 0⟩)
  | .float bits => floatValue bits
  | .decimal d => .ok (.dec d)
  | .string s => .ok (.str s)
  | .map es => do
    let sorted := (entriesToValue es).mergeSort fun a b => Bytes.le a.1 b.1
    let ms ← sorted.mapM fun (k, r) => r.map fun v => (k, v)
    pure (.obj (Members.ofPairs ms))
  | .list xs => do pure (.arr (← itemsToValue xs))
  | .value v => .ok v
  | .unsupported t => .error (refuse ("no JSON value for Go type " ++ t))

/-- The value, or failure, of each map entry. -/
def entriesToValue : List (Bytes × Datum) → List (Bytes × Except Failure Value)
  | [] => []
  | (k, d) :: rest => (k, toValue d) :: entriesToValue rest

/-- The values of list items, in order; the first failure wins. -/
def itemsToValue : List Datum → Except Failure (List Value)
  | [] => .ok []
  | d :: rest => do
    let v ← toValue d
    pure (v :: (← itemsToValue rest))

end

end Datum

namespace Value

mutual

/-- A value as plain host data; a foreign node becomes nothing. -/
def toDatum : Value → Datum
  | .null => .nothing
  | .bool b => .bool b
  | .int n => .int n
  | .dec d => .decimal d
  | .str s => .string s
  | .obj ms => .map (membersToDatum ms)
  | .arr xs => .list (elemsToDatum xs)
  | .foreign _ => .nothing

/-- Member values as host data. -/
def membersToDatum : List (Bytes × Value) → List (Bytes × Datum)
  | [] => []
  | (k, v) :: rest => (k, toDatum v) :: membersToDatum rest

/-- Elements as host data. -/
def elemsToDatum : List Value → List Datum
  | [] => []
  | x :: rest => toDatum x :: elemsToDatum rest

end

end Value

end ExactJson
