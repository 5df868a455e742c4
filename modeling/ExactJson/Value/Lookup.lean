import ExactJson.Value.Basic

/-!
# Paths into values

A path is a list of steps. In an object a step is a key; in an array it is an index written in
decimal (an optional sign and digits, so `+1`, `01` and `-0` all name an element, and a blank
or a point does not), which must name an element. A step into anything else leads nowhere.

Indexing an array outside its bounds is a fault that names the index and, for an index that is
not negative, the length.
-/

namespace ExactJson

/-- An index outside an array. -/
structure IndexFault where
  /-- The index asked for. -/
  index : Int
  /-- The length of the array. -/
  length : Nat
  deriving DecidableEq, Repr

/-- The text of an index fault. -/
def IndexFault.message (f : IndexFault) : String :=
  if f.index < 0 then "runtime error: index out of range [" ++ toString f.index ++ "]"
  else "runtime error: index out of range [" ++ toString f.index ++ "] with length "
    ++ toString f.length

namespace Value

/-- The element at an index. -/
def elemAt (xs : List Value) (i : Int) : Except IndexFault Value :=
  if h : 0 ≤ i ∧ i.toNat < xs.length then .ok (xs.get ⟨i.toNat, h.2⟩)
  else .error ⟨i, xs.length⟩

/-- The list with the element at an index replaced. -/
def setAt (xs : List Value) (i : Int) (v : Value) : Except IndexFault (List Value) :=
  if 0 ≤ i ∧ i.toNat < xs.length then .ok (xs.set i.toNat v)
  else .error ⟨i, xs.length⟩

/-- The indexes a visit of `n` elements sees when it stops after `limit` of them: at least the
first element is always visited, and no limit visits all. -/
def visitIndexes (n : Nat) (limit : Option Nat) : List Nat :=
  match limit with
  | some l => List.range (min n (max l 1))
  | none => List.range n

/-- One step of a path. -/
def step (v : Value) (s : Bytes) : Option Value :=
  match v with
  | .obj ms => Members.get? ms s
  | .arr xs =>
    match Integer.readSigned 64 s with
    | .ok i => (elemAt xs i).toOption
    | .error _ => none
  | _ => none

/-- The value at the end of a path. -/
def lookup (v : Value) : List Bytes → Option Value
  | [] => some v
  | s :: rest => (v.step s).bind fun w => w.lookup rest

end Value

end ExactJson
