import ExactJson.Number.Run
import ExactJson.Value.Members

/-!
# Values

A value is a JSON literal, a 64-bit integer, an exact decimal, a byte string, an object (a member
list in insertion order) or an array. A value tree may also hold *foreign* nodes, things that
are no JSON value at all, named by their host type (`<nil>` for an empty slot); the writer
refuses them, and nothing the reader builds holds one.

`equiv` is the equality of the model: literals, integers and strings compare exactly, decimals
by numeric value, objects member by member in order, arrays element by element, and an integer
never equals a decimal. Foreign nodes are equal only to foreign nodes of the same name.
-/

namespace ExactJson

/-- A value tree. -/
inductive Value where
  /-- The literal `null`. -/
  | null
  /-- The literals `true` and `false`. -/
  | bool (b : Bool)
  /-- A number that fits a signed 64-bit integer. -/
  | int (n : Int64)
  /-- Any other number, exactly. -/
  | dec (d : Decimal)
  /-- A string, as bytes. -/
  | str (s : Bytes)
  /-- An object: its members in insertion order. -/
  | obj (members : List (Bytes × Value))
  /-- An array. -/
  | arr (elems : List Value)
  /-- A node that is no JSON value, named by its host type. -/
  | foreign (typeName : String)
  deriving Inhabited

/-- The kinds of JSON value. -/
inductive Kind where
  | null | boolean | integer | decimal | string | object | array
  deriving DecidableEq, Repr

namespace Kind

/-- All kinds, in the order of their numbers. -/
def all : List Kind := [null, boolean, integer, decimal, string, object, array]

/-- The name of a kind. -/
def name : Kind → String
  | null => "null"
  | boolean => "boolean"
  | integer => "integer"
  | decimal => "decimal"
  | string => "string"
  | object => "object"
  | array => "array"

/-- The name of the kind numbered `n`, or `Kind(n)` when no kind has that number. -/
def nameOfIndex (n : Int) : String :=
  if h : 0 ≤ n ∧ n.toNat < all.length then (all.get ⟨n.toNat, h.2⟩).name
  else "Kind(" ++ toString n ++ ")"

end Kind

namespace Value

/-- The value of a number. -/
def ofNumber : Number → Value
  | .integer n => .int n
  | .decimal d => .dec d

/-- The empty slot: no value at all. -/
def hole : Value := .foreign "<nil>"

/-- The kind of a value; foreign nodes have none. -/
def kind? : Value → Option Kind
  | null => some .null
  | bool _ => some .boolean
  | int _ => some .integer
  | dec _ => some .decimal
  | str _ => some .string
  | obj _ => some .object
  | arr _ => some .array
  | foreign _ => none

mutual

/-- The equality of the model. -/
def equiv : Value → Value → Bool
  | null, null => true
  | bool a, bool b => a == b
  | int a, int b => a == b
  | dec a, dec b => a.sameValue b
  | str a, str b => a == b
  | obj ms, obj ns => membersEquiv ms ns
  | arr xs, arr ys => elemsEquiv xs ys
  | foreign a, foreign b => a == b
  | _, _ => false

/-- Member lists with the same keys in the same order and equivalent values. -/
def membersEquiv : List (Bytes × Value) → List (Bytes × Value) → Bool
  | [], [] => true
  | (k, v) :: ms, (k', v') :: ns => k == k' && equiv v v' && membersEquiv ms ns
  | _, _ => false

/-- Element lists of the same length with equivalent elements. -/
def elemsEquiv : List Value → List Value → Bool
  | [], [] => true
  | x :: xs, y :: ys => equiv x y && elemsEquiv xs ys
  | _, _ => false

end

end Value

end ExactJson
