import ExactJson.Text.Bytes

/-!
# Member lists

The members of an object are a list of key–value pairs in the order their keys were first set.
Keys are distinct: setting a key that is present replaces its value where it stands, and setting
a new key appends it. Erasing a key keeps the order of the others. Lookups read the list front
to back.

The operations are generic in the type of values, so that plain host maps use them as well.
-/

namespace ExactJson.Members

variable {α : Type}

/-- The value stored under a key. -/
def get? (ms : List (Bytes × α)) (k : Bytes) : Option α :=
  (ms.find? (·.1 == k)).map (·.2)

/-- Whether a key is present. -/
def has (ms : List (Bytes × α)) (k : Bytes) : Bool := ms.any (·.1 == k)

/-- Stores `v` under `k`: in place when `k` is present, at the end otherwise. -/
def set (ms : List (Bytes × α)) (k : Bytes) (v : α) : List (Bytes × α) :=
  if has ms k then ms.map fun m => if m.1 == k then (k, v) else m
  else ms ++ [(k, v)]

/-- Removes a key, keeping the order of the others. -/
def erase (ms : List (Bytes × α)) (k : Bytes) : List (Bytes × α) := ms.filter (·.1 != k)

/-- The keys in order. -/
def keys (ms : List (Bytes × α)) : List Bytes := ms.map (·.1)

/-- The members a visit sees when it stops after `limit` of them: at least the first member
is always visited, and no limit visits all. -/
def visit (ms : List (Bytes × α)) (limit : Option Nat) : List (Bytes × α) :=
  match limit with
  | some n => ms.take (max n 1)
  | none => ms

/-- A member list built by setting the pairs in order: a repeated key keeps its first place and
its last value. -/
def ofPairs (ps : List (Bytes × α)) : List (Bytes × α) :=
  ps.foldl (fun ms p => set ms p.1 p.2) []

end ExactJson.Members
