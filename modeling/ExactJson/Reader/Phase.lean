import ExactJson.Failure
import ExactJson.Reader.Code

/-!
# Phases and the transition table

Reading one container is a walk through phases. Each phase has an entry action (run by the
reader when it enters the phase); then the next code that is no blank selects the following
phase from a fixed table. The table is the grammar of objects and arrays:

* `{` opens an object and `[` an array;
* in an object, a key (`"`) comes first or after `,`, a `:` leads to its value, and `,` or `}`
  follow the value;
* in an array, `]` may close it at once; any other code belongs to the first element, so that
  edge is a *wildcard* that gives the code back to be read again; after each element come `,`
  or `]`.

A phase with no edge out (the two end phases) fails with `state S has no transitions`; a code
with no edge out of a phase that has edges fails with `no transition from S on D`.
-/

namespace ExactJson

/-- Where the reader of one container stands. -/
inductive Phase where
  /-- Before the opening bracket. -/
  | init
  /-- Just after `{`. -/
  | objectStart
  /-- Just after `[`. -/
  | arrayStart
  /-- At the opening quote of a key. -/
  | propertyName
  /-- After the `:` of a member, where its value starts. -/
  | propertyValue
  /-- After the `,` between members. -/
  | nextProperty
  /-- Where an element of an array starts. -/
  | nextElement
  /-- After the closing `}`. -/
  | objectEnd
  /-- After the closing `]`. -/
  | arrayEnd
  deriving DecidableEq, Repr

namespace Phase

/-- All phases, in the order of their numbers. -/
def all : List Phase :=
  [init, objectStart, arrayStart, propertyName, propertyValue, nextProperty, nextElement,
   objectEnd, arrayEnd]

/-- The number of a phase. -/
def index : Phase → Nat
  | init => 0
  | objectStart => 1
  | arrayStart => 2
  | propertyName => 3
  | propertyValue => 4
  | nextProperty => 5
  | nextElement => 6
  | objectEnd => 7
  | arrayEnd => 8

/-- The phase with a given number, if one has it. -/
def ofIndex? (n : Int) : Option Phase := all.find? (fun p => (p.index : Int) = n)

/-- The name of a phase in messages. -/
def name : Phase → String
  | init => "Init"
  | objectStart => "ObjectStart"
  | arrayStart => "ArrayStart"
  | propertyName => "PropertyName"
  | propertyValue => "PropertyValue"
  | nextProperty => "NextProperty"
  | nextElement => "NextElement"
  | objectEnd => "ObjectEnd"
  | arrayEnd => "ArrayEnd"

/-- The name of the phase numbered `n`, or `State(n)` when no phase has that number. -/
def nameOfIndex (n : Int) : String :=
  match ofIndex? n with
  | some p => p.name
  | none => "State(" ++ toString n ++ ")"

/-- Whether the phase ends a container. -/
def isEnd : Phase → Bool
  | objectEnd | arrayEnd => true
  | _ => false

/-- The edges of the table: from a phase, on a code, to a phase. -/
def edges : List (Phase × Int × Phase) :=
  [(init, 0x7B, objectStart), (init, 0x5B, arrayStart),
   (objectStart, 0x7D, objectEnd), (objectStart, 0x22, propertyName),
   (nextProperty, 0x22, propertyName),
   (propertyName, 0x3A, propertyValue),
   (propertyValue, 0x2C, nextProperty), (propertyValue, 0x7D, objectEnd),
   (arrayStart, 0x5D, arrayEnd),
   (nextElement, 0x2C, nextElement), (nextElement, 0x5D, arrayEnd)]

/-- The phase that any code without an edge of its own leads to; the code is read again. -/
def wildcard : Phase → Option Phase
  | arrayStart => some nextElement
  | _ => none

/-- Whether any edge leaves the phase. -/
def hasEdges (p : Phase) : Bool := edges.any (·.1 == p) || (wildcard p).isSome

end Phase

/-- One step of the table: the next phase, and whether the code must be read again. -/
structure Move where
  /-- The phase the step leads to. -/
  target : Phase
  /-- Whether the code belongs to the next phase and is given back. -/
  giveBack : Bool
  deriving DecidableEq, Repr

/-- The failure for a phase, named `name`, that has no edge on code `c`. -/
def Phase.stuck (name : String) (edged : Bool) (c : Int) (offset : Int) : Failure :=
  if edged then Failure.make .noTransition offset
    ("no transition from " ++ name ++ " on " ++ Code.describe c)
  else Failure.make .noTransition offset ("state " ++ name ++ " has no transitions")

/-- The step from phase `p` on code `c`, seen at `offset`: its edge if it has one, else its
wildcard, else a failure. -/
def Phase.step (p : Phase) (c : Int) (offset : Int) : Except Failure Move :=
  match (Phase.edges.find? fun e => e.1 == p && e.2.1 == c) with
  | some e => .ok ⟨e.2.2, false⟩
  | none =>
    match p.wildcard with
    | some q => .ok ⟨q, true⟩
    | none => .error (Phase.stuck p.name p.hasEdges c offset)

/-- The step from the phase numbered `n`; a number that no phase has has no transitions. -/
def Phase.stepIndexed (n : Int) (c : Int) (offset : Int) : Except Failure Move :=
  match Phase.ofIndex? n with
  | some p => p.step c offset
  | none => .error (Phase.stuck (Phase.nameOfIndex n) false c offset)

end ExactJson
