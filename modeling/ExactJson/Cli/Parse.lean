import ExactJson.Cli.Spec
import ExactJson.Text.Utf8
import ExactJson.Text.Quoted
import ExactJson.Number.FloatText

/-!
# Parsing command lines

Arguments are taken one by one from a work list, which starts as the command line, and split
into tokens:

* `--name` is a long flag and `--name=value` a long flag followed by its value;
* `-c` is a short flag, by the character after the dash; the rest of the argument, if there is
  any, is the value that follows it when `c` names a flag that takes a value, and otherwise goes
  back on the work list with a dash in front, so `-qv` is `-q -v`;
* `-` alone is an empty positional argument;
* `@file` is replaced on the work list by the lines of that file, blank lines and lines starting
  with `#` left out;
* anything else is positional.

The first `--` of the command line is dropped, and makes every argument taken after it
positional: an argument counts as after it when more arguments were taken before it than stood
before the `--` on the command line, lines of argument files included. Any other `--` is
dropped and changes nothing.

The first positional argument names the command; the command's flags and arguments are in
reach from then on. A flag that takes a value takes the next token, which must be positional.
A switch written `--no-name` is false. A positional argument fills the next argument slot; a
repeated argument takes all that remain, and a positional argument left over is an error.

Then the values are set in order, up to the first that is wrong: a flag given twice, an integer
that does not read, or a choice that is not listed.
-/

namespace ExactJson.Cli

/-- A token of a command line. -/
inductive Token where
  /-- `-c`, by the octets of its letter. -/
  | short (name : Bytes)
  /-- `--name`. -/
  | long (name : Bytes)
  /-- A positional argument or a flag's value. -/
  | arg (text : Bytes)
  /-- An argument that could not be read, with the reason. -/
  | broken (reason : Bytes)
  /-- The end of the arguments. -/
  | finish
  deriving DecidableEq, Repr

/-- How a token is written in errors. -/
def Token.text : Token → Bytes
  | .short n => Bytes.ofString "-" ++ n
  | .long n => Bytes.ofString "--" ++ n
  | .arg t => t
  | .broken r => Bytes.ofString "error: " ++ r
  | .finish => Bytes.ofString "<EOL>"

/-- What a parse has matched, in order. -/
inductive Element where
  | flag (f : Flag) (value : Bytes)
  | arg (a : Arg) (value : Bytes)
  | command (c : Command)
  deriving Repr

/-- The state of a parse. -/
structure Context where
  /-- The arguments not yet taken, lines of argument files spliced in front. -/
  work : List Bytes
  /-- How many arguments have been taken. -/
  taken : Nat := 0
  /-- The place of the first `--` of the command line. -/
  dashAt : Option Nat := none
  /-- An argument after that `--` has been taken, as a positional argument. -/
  argsOnly : Bool := false
  /-- Tokens read and given back, the next first. -/
  pending : List Token := []
  /-- The flags in reach, in order. -/
  flags : List Flag
  /-- The argument slots in reach, in order. -/
  args : List Arg := []
  /-- The next argument slot. -/
  slot : Nat := 0
  chosen : Option Command := none
  elements : Array Element := #[]

/-- The lines of an argument file, or why it cannot be read. -/
abbrev Expander := Bytes → Except Bytes (List Bytes)

namespace Context

/-- The flag with a long name. -/
def longFlag (c : Context) (name : Bytes) : Option Flag :=
  c.flags.find? fun f => Bytes.ofString f.name == name

/-- The flag with a one-letter name, by the octets of the letter. -/
def shortFlag (c : Context) (name : Bytes) : Option Flag :=
  c.flags.find? fun f => match f.short with
    | some ch => Bytes.ofString ch.toString == name
    | none => false

/-- Splits off the next token. -/
def next (expand : Expander) : Nat → Context → Token × Context
  | 0, c => (.finish, c)
  | fuel + 1, c =>
    match c.pending with
    | t :: more => (t, { c with pending := more })
    | [] =>
      match c.work with
      | [] => (.finish, c)
      | a :: more =>
        let n := c.taken
        let c := { c with work := more, taken := n + 1 }
        let dash : UInt8 := 0x2D
        if c.dashAt.any (· < n) then (.arg a, { c with argsOnly := true })
        else if a == [dash, dash] then next expand fuel c
        else if a.take 2 == [dash, dash] then
          let body := a.drop 2
          match body.idxOf? 0x3D with
          | some i => (.long (body.take i), { c with pending := [.arg (body.drop (i + 1))] })
          | none => (.long body, c)
        else if a == [dash] then (.arg [], c)
        else if a.head? == some dash then
          let body := a.drop 1
          let (piece, extra) := match body with
            | b :: tail => Utf8.lead b tail
            | [] => (.stray 0, 0)
          let name := Utf8.encode piece.code
          let after := body.drop (extra + 1)
          if after.isEmpty then (.short name, c)
          else match c.shortFlag name with
            | some f =>
              if f.isSwitch then (.short name, { c with work := (dash :: after) :: c.work })
              else (.short name, { c with pending := [.arg after] })
            | none => (.short name, { c with work := (dash :: after) :: c.work })
        else if a.head? == some 0x40 then
          match expand (a.drop 1) with
          | .error r => (.broken r, c)
          | .ok xs => next expand fuel { c with work := xs ++ c.work }
        else (.arg a, c)

/-- A bound on the tokens of the rest of the line, argument files included. -/
def fuel (c : Context) : Nat := 4 * (c.work.foldl (fun n a => n + a.length + 1) 0) + 65536

/-- The next token, left in place. -/
def peek (expand : Expander) (c : Context) : Token × Context :=
  match c.pending with
  | t :: _ => (t, c)
  | [] =>
    let (t, c') := c.next expand c.fuel
    (t, { c' with pending := t :: c'.pending })

/-- Takes the next token. -/
def advance (expand : Expander) (c : Context) : Context := (c.next expand c.fuel).2

/-- Chooses a command: its flags and argument slots come into reach. -/
def choose (c : Context) (cmd : Command) : Context :=
  { c with elements := c.elements.push (.command cmd), flags := c.flags ++ cmd.flags,
           args := c.args ++ cmd.args, chosen := some cmd }

end Context

/-- Reads one flag and its value. -/
def readFlag (expand : Expander) (c : Context) (t : Token) : Except Bytes (Flag × Context) := do
  let quoted := Bytes.ofString "'" ++ t.text ++ Bytes.ofString "'"
  let (flag, negated) ← match t with
    | .long name =>
      match c.longFlag name with
      | some f => pure (f, false)
      | none =>
        let stripped := if name.take 3 == Bytes.ofString "no-" then some (name.drop 3) else none
        match stripped.bind c.longFlag with
        | some f => pure (f, true)
        | none => throw (Bytes.ofString "unknown long flag " ++ quoted)
    | .short name =>
      match c.shortFlag name with
      | some f => pure (f, false)
      | none => throw (Bytes.ofString "unknown short flag " ++ quoted)
    | _ => throw (Bytes.ofString "unexpected " ++ t.text)
  let c := c.advance expand
  if flag.isSwitch then
    let value := Bytes.ofString (if negated then "false" else "true")
    pure (flag, { c with elements := c.elements.push (.flag flag value) })
  else if negated then throw (Bytes.ofString "unknown long flag " ++ quoted)
  else
    let (v, c) := c.peek expand
    match v with
    | .arg value =>
      let c := c.advance expand
      pure (flag, { c with elements := c.elements.push (.flag flag value) })
    | _ => throw (Bytes.ofString "expected argument for flag " ++ quoted)

/-- Parses a command line: the context reached, and the error that stopped it, if one did. -/
def parseLine (app : App) (expand : Expander) (args : List Bytes) : Context × Option Bytes :=
  Id.run do
    let mut c : Context := { work := args, dashAt := args.idxOf? [0x2D, 0x2D], flags := app.flags }
    let rounds := c.fuel
    for _ in [0:rounds] do
      let (t, c1) := c.peek expand
      c := c1
      match t with
      | .finish | .broken _ => break
      | .long _ | .short _ =>
        match readFlag expand c t with
        | .error e => return (c, some e)
        | .ok (_, c2) => c := c2
      | .arg word =>
        if c.chosen.isNone && !app.commands.isEmpty then
          match app.commands.find? (fun cmd => Bytes.ofString cmd.name == word) with
          | some cmd => c := (c.choose cmd).advance expand
          | none =>
            return (c, some (Bytes.ofString "expected command but got " ++
              Bytes.ofString (Quoted.quote word)))
        else match c.args[c.slot]? with
          | some a =>
            c := { (c.advance expand) with
              elements := c.elements.push (.arg a word),
              slot := if a.repeated then c.slot else c.slot + 1 }
          | none => break
    let (t, c1) := c.peek expand
    match t with
    | .broken r => return (c1, some r)
    | .finish => return (c1, none)
    | _ => return (c1, some (Bytes.ofString "unexpected " ++ t.text))

/-- The values given on a command line, by flag and argument name. -/
structure Values where
  flags : List (String × Bytes) := []
  args : List (String × List Bytes) := []
  deriving Repr

/-- An integer given as a float literal and cut toward zero, as 64-bit signed integers are;
otherwise the error. -/
def readWhole (s : Bytes) : Except Bytes Int :=
  let fault (why : String) : Except Bytes Int :=
    .error (Bytes.ofString ("strconv.ParseFloat: parsing " ++ Quoted.quote s ++ ": " ++ why))
  match readFloatText .binary64 s with
  | none => fault "invalid syntax"
  | some (_, true) => fault "value out of range"
  | some (c, false) => .ok c.toInt64

/-- Sets the values of the matched elements in order; stops at the first that is wrong. -/
def setValues (elements : List Element) : Values × Option Bytes := Id.run do
  let mut v : Values := {}
  for e in elements do
    match e with
    | .flag f value =>
      if (v.flags.lookup f.name).isSome then
        return (v, some (Bytes.ofString ("flag '" ++ f.name ++ "' cannot be repeated")))
      match f.value with
      | .integer =>
        match readWhole value with
        | .error m => return (v, some m)
        | .ok _ => pure ()
      | .choice options =>
        if !options.any (fun o => Bytes.ofString o == value) then
          return (v, some (Bytes.ofString ("enum value must be one of " ++
            ",".intercalate options ++ ", got '") ++ value ++ Bytes.ofString "'"))
      | _ => pure ()
      v := { v with flags := v.flags ++ [(f.name, value)] }
    | .arg a value =>
      let old := (v.args.lookup a.name).getD []
      v := { v with args := (v.args.filter (·.1 != a.name)) ++ [(a.name, old ++ [value])] }
    | .command _ => pure ()
  return (v, none)

end ExactJson.Cli
