import ExactJson.Reader.Cursor
import ExactJson.Reader.Phase
import ExactJson.Reader.Stack
import ExactJson.Reader.Options
import ExactJson.Text.Escape

/-!
# Reading documents

A document is one object or array, with blanks around it. A container is read by walking its
phases: the entry action of a phase runs, blanks are skipped, and the next code selects the next
phase from the table, until an end phase is reached; the value stack then holds the finished
container. The entry actions are where values are read:

* `objectStart` and `arrayStart` push the new container;
* `propertyName` reads the key (the cursor is on its opening quote) and pushes it;
* `propertyValue` and `nextElement` read a value and attach it.

A value is told by its first code: a quote starts a string, a sign, point or digit a numeric
run, one of `tTfFnN` a run of letters, and a bracket a nested container, which is read by a
fresh walk over the same cursor, one level deeper. Each reader leaves the cursor on the last
octet of what it read, so that skipping blanks and taking the next code sees what follows.

Every step of a walk moves the cursor on by at least one octet, apart from the wildcard edge
out of `arrayStart`, so a walk takes fewer steps than a multiple of the input's length; the
reader runs on that many steps of fuel, and running out is an internal failure that the
bound rules out.
-/

namespace ExactJson

/-- A reading step: it moves the cursor and gives a result or a failure. -/
abbrev ReadStep := StateT Cursor (Except Failure)

namespace ReadStep

/-- A cursor read as a reading step. -/
def ofRead {α : Type} (r : Cursor → Cursor × Except Failure α) : ReadStep α := fun c =>
  let (c', x) := r c
  x.map fun a => (a, c')

/-- Moves one octet on and gives its code. -/
def nextCode : ReadStep Int := fun c =>
  let (c', x) := c.next
  .ok (Code.ofSight x, c')

/-- The cursor's offset. -/
def offset : ReadStep Nat := fun c => .ok (c.offset, c)

/-- A failure at the cursor's offset. -/
def failHere {α : Type} (cls : FailureClass) (message : String) : ReadStep α := fun c =>
  .error (c.failure cls message)

end ReadStep

open ReadStep

/-- The cause of a malformed escape. -/
def malformedEscapeCause : String := "Encountered an invalid escape sequence in a string"

/-- The failure for a string with a malformed escape, opened at `start`. -/
def malformedEscape (start : Nat) : Failure :=
  { Failure.make .invalidEscape start "invalid escape in string" with
    cause := some (Bytes.ofString malformedEscapeCause) }

/-- Reads a string; the cursor is on its opening quote and ends on its closing quote. -/
def readStringStep (o : ReadOptions) : ReadStep Bytes := do
  let start ← offset
  let raw ← ofRead Cursor.readQuoted
  modify Cursor.pushBack
  if o.strings == .raw || !raw.contains 0x5C then pure raw
  else match Escape.unescape raw with
    | some s => pure s
    | none => throw (malformedEscape start)

/-- Reads a numeric run; the cursor is on its first octet and ends on its last. -/
def readNumberStep (o : ReadOptions) : ReadStep Value := do
  let start ← offset
  let raw ← ofRead Cursor.readNumeric
  modify Cursor.pushBack
  match readNumber raw o.numberOptions with
  | .ok n => pure (Value.ofNumber n)
  | .error f => throw (f.placeAt start)

/-- Reads a run of letters as a literal; the cursor is on its first letter and ends on its
last. -/
def readLiteralStep : ReadStep Value := do
  let start ← offset
  let lit ← ofRead Cursor.readLetters
  modify Cursor.pushBack
  if Bytes.equalsFolded lit (Bytes.ofString "true") then pure (.bool true)
  else if Bytes.equalsFolded lit (Bytes.ofString "false") then pure (.bool false)
  else if Bytes.equalsFolded lit (Bytes.ofString "null") then pure .null
  else throw (Failure.make .unknownLiteral start ("unknown literal " ++ Quoted.quote lit))

mutual

/-- Reads one container at `depth`, from before its opening bracket to its closing one. -/
def readContainer (o : ReadOptions) (depth : Nat) : Nat → ReadStep Value
  | 0 => failHere .internalError "reader ran out of steps"
  | fuel + 1 => walk o depth .init [] fuel
termination_by structural fuel => fuel

/-- Walks the phases of a container from `phase` with the stack `stack`. -/
def walk (o : ReadOptions) (depth : Nat) (phase : Phase) (stack : List Pending) :
    Nat → ReadStep Value
  | 0 => failHere .internalError "reader ran out of steps"
  | fuel + 1 =>
    if phase.isEnd then do
      let off ← offset
      match Pending.result stack off with
      | .ok v => pure v
      | .error f => throw f
    else do
      let stack ← enterPhase o depth phase stack fuel
      modify Cursor.skipBlanks
      let x ← nextCode
      let off ← offset
      match phase.step x off with
      | .error f => throw f
      | .ok m =>
        if m.giveBack then modify Cursor.pushBack
        walk o depth m.target stack fuel
termination_by structural fuel => fuel

/-- The entry action of a phase. -/
def enterPhase (o : ReadOptions) (depth : Nat) (phase : Phase) (stack : List Pending) :
    Nat → ReadStep (List Pending)
  | 0 => failHere .internalError "reader ran out of steps"
  | fuel + 1 =>
    match phase with
    | .objectStart => pure (.object [] :: stack)
    | .arrayStart => pure (.array #[] :: stack)
    | .propertyName => do
      let k ← readStringStep o
      pure (.key k :: stack)
    | .propertyValue | .nextElement => do
      let off ← offset
      let v ← readValueStep o depth fuel
      match Pending.attach stack v off with
      | .ok s => pure s
      | .error f => throw f
    | _ => pure stack
termination_by structural fuel => fuel

/-- Reads the value that starts at the next code that is no blank. -/
def readValueStep (o : ReadOptions) (depth : Nat) : Nat → ReadStep Value
  | 0 => failHere .internalError "reader ran out of steps"
  | fuel + 1 => do
    modify Cursor.skipBlanks
    let x ← nextCode
    if x = 0x22 then .str <$> readStringStep o
    else if Code.isNumberStart x then readNumberStep o
    else if Code.isLiteralStart x then readLiteralStep
    else if x = 0x7B ∨ x = 0x5B then do
      modify Cursor.pushBack
      if o.depthLimit ≤ depth then
        failHere .boundExceeded ("nesting depth " ++ toString (depth + 1) ++ " exceeds maximum "
          ++ toString o.depthLimit)
      else readContainer o (depth + 1) fuel
    else failHere .unexpectedToken ("unexpected " ++ Code.describe x ++ " where a value was expected")
termination_by structural fuel => fuel

end

/-- Fuel enough for every walk over an input of `n` octets. -/
def fuelFor (n : Nat) : Nat := 8 * (n + 2)

/-- Reads a document: one object or array with blanks around it. -/
def readDocument (o : ReadOptions) (text : Array UInt8) : Except Failure Value :=
  if o.sizeLimit < text.size then
    .error (Failure.make .boundExceeded 0
      ("input size " ++ toString text.size ++ " exceeds maximum " ++ toString o.sizeLimit))
  else
    let whole : ReadStep Value := do
      let v ← readContainer o 1 (fuelFor text.size)
      modify Cursor.skipBlanks
      let x ← nextCode
      if x ≠ Code.stop then
        failHere .trailingContent ("trailing content " ++ Code.describe x ++ " after JSON value")
      else pure v
    (whole.run (Cursor.start text)).map (·.1)

end ExactJson
