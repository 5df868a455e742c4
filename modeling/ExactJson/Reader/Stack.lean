import ExactJson.Failure
import ExactJson.Value.Basic
import ExactJson.Text.Quoted

/-!
# The value stack

The reader of one container keeps what it has built so far on a stack: the container itself, and
above it, while a member's value is being read, the member's key. `attach` puts a finished value
into place: an array on top takes it as its next element, and a key on top is popped and the
value set under it in the object below. `result` takes the finished container off the stack,
which must then hold nothing else.

The failures here are internal: the reader's phases keep the stack in a shape where none of them
can happen.
-/

namespace ExactJson

/-- An item of the value stack. -/
inductive Pending where
  /-- An object being built: its members so far. -/
  | object (members : List (Bytes × Value))
  /-- An array being built: its elements so far. -/
  | array (elems : Array Value)
  /-- The key of the member whose value is being read. -/
  | key (k : Bytes)

namespace Pending

/-- An internal failure of the stack at `offset`. -/
def broken (offset : Nat) (message : String) : Failure :=
  Failure.make .internalError offset message

/-- Puts a finished value into the container being built. -/
def attach (stack : List Pending) (v : Value) (offset : Nat) : Except Failure (List Pending) :=
  match stack with
  | [] => .error (broken offset "value stack is empty")
  | array es :: rest => .ok (array (es.push v) :: rest)
  | key k :: object ms :: rest => .ok (object (Members.set ms k v) :: rest)
  | key k :: _ => .error (broken offset ("property " ++ Quoted.quote k ++ " has no enclosing object"))
  | object _ :: _ => .error (broken offset "cannot attach a value to *jvalue.Object")

/-- Takes the finished container off the stack. -/
def result (stack : List Pending) (offset : Nat) : Except Failure Value :=
  match stack with
  | [object ms] => .ok (.obj ms)
  | [array es] => .ok (.arr es.toList)
  | [key k] => .error (broken offset ("value stack ended with pending property " ++ Quoted.quote k))
  | _ => .error (broken offset ("value stack holds " ++ toString stack.length
      ++ " items at end of container"))

end Pending

end ExactJson
