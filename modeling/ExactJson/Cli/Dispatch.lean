import ExactJson.Cli.Complete

/-!
# What a command line does

Once a command line is parsed and its values are set, what it does is decided in this order:

* when the values set before the first wrong one turn completion on, the program writes the
  words that may come next and ends with status 0, and nothing else happens;
* otherwise every `help` command and display flag acts, in the order they were given: the
  `help` command writes the usage text of the command its arguments name, and a display flag
  moves the usage texts to standard output and writes its text there; each ends the program
  with status 0 (a `help` command naming no command ends it with status 1 first);
* then a parse error is the result; then every `--help` flag writes the usage text in reach and
  ends the program with status 0; then a wrong value is the result; then a missing required
  argument; and last, the chosen command, or, when none was chosen, the usage text with status
  0.

Ending the program only records its status: the first status recorded is the one it ends with,
and what comes after is still written.
-/

namespace ExactJson.Cli

/-- What a command line parse ends with. -/
structure Outcome where
  /-- The text written to standard output, in order. -/
  stdout : Bytes := []
  /-- The text written to standard error, in order. -/
  stderr : Bytes := []
  /-- Usage texts and errors go to standard output rather than standard error. -/
  toStdout : Bool := false
  /-- The status the program was ended with, if it was. -/
  ended : Option Nat := none
  /-- The chosen command, or the error. -/
  result : Except Bytes String := .error []
  /-- The values given. -/
  values : Values := {}

namespace Outcome

/-- Writes a usage text or an error where such texts go. -/
def say (o : Outcome) (text : Bytes) : Outcome :=
  if o.toStdout then { o with stdout := o.stdout ++ text } else { o with stderr := o.stderr ++ text }

/-- Ends the program with a status, unless it was already ended. -/
def finish (o : Outcome) (status : Nat) : Outcome :=
  { o with ended := o.ended <|> some status }

end Outcome

/-- The usage text of the `help` command for the command named by its arguments; a name that
is no command is reported first, and ends the program with status 1. -/
def helpText (app : App) (expand : Expander) (names : List Bytes) (o : Outcome) : Outcome :=
  let (c, err) := parseLine app expand names
  let o := match err with
    | some e => (o.say (Bytes.ofString (app.name ++ ": error: ") ++ e ++ [0x0A])).finish 1
    | none => o
  (o.say (Bytes.ofString (usage app c.chosen))).finish 0

/-- What the `help` commands and display flags of a parse do, in order. -/
def firstActions (app : App) (expand : Expander) (c : Context) (values : Values) (o : Outcome) :
    Outcome :=
  c.elements.toList.foldl (fun o e =>
    match e with
    | .command cmd =>
      if cmd.name == "help" then helpText app expand ((values.args.lookup "command").getD []) o
      else o
    | .flag f _ =>
      match f.display with
      | some d =>
        let o := { o with toStdout := true }
        (o.say (Bytes.ofString (d.text app c.flags c.args))).finish 0
      | none => o
    | _ => o) o

/-- Parses a command line: the texts written, whether the program was ended, and the chosen
command with the values given. -/
def parseArgs (app : App) (expand : Expander) (args : List Bytes) : Outcome :=
  let (c, parseError) := parseLine app expand args
  let elements := c.elements.toList
  let (values, valueError) := setValues elements
  let o : Outcome := { values }
  if values.flags.lookup "completion-bash" == some (Bytes.ofString "true") then
    let words := completionOptions app c args
    ({ o with stdout := [0x0A].intercalate words }).finish 0
  else
    let o := firstActions app expand c values o
    match parseError with
    | some e => { o with result := .error e }
    | none =>
      -- a help flag writes the usage in reach
      let o := elements.foldl (fun o e =>
        match e with
        | .flag f _ =>
          if f.name == "help" then (o.say (Bytes.ofString (usage app c.chosen))).finish 0 else o
        | _ => o) o
      match valueError with
      | some e => { o with result := .error e }
      | none =>
        let given (a : Arg) : Bool := elements.any fun e =>
          match e with
          | .arg b _ => b.name == a.name
          | _ => false
        match c.args.find? (fun a => a.required && !given a) with
        | some a =>
          let e := Bytes.ofString ("required argument '" ++ a.name ++ "' not provided")
          { o with result := .error e }
        | none =>
          match c.chosen with
          | none =>
            ({ (o.say (Bytes.ofString (usage app none))) with
                result := .error (Bytes.ofString "command not specified") }).finish 0
          | some cmd => { o with result := .ok cmd.name }

end ExactJson.Cli
