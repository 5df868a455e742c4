import ExactJson.Cli.Parse

/-!
# Completing command lines

A shell completes a command line by running the program with `--completion-bash` and the words
typed so far; the program answers with the words that may come next, one per line. The answer
is read off the parse of those words, and the last two words:

* when the last word starts with `--`, it is a flag name being typed, and when only the one
  before it does, the last word is that flag's value; but once the parse has taken an argument
  after the first `--` of the line, no flag is being typed and the answer is empty;
* a flag name that names a flag is complete when the flag lists no values, and its value is
  complete when it is one of the listed values and no other listed value starts with it; then
  the answer is what may follow, as if no flag were being typed;
* otherwise the answer is the listed values of the named flag, or else every visible flag of
  the chosen command (or of the program), as `--name`; below a command, the flags of the
  program come after the command's own, unless one of them was named;
* when no flag is being typed, the answer is the commands when none is chosen yet, and nothing
  otherwise: the arguments list no values, and no command has commands of its own.
-/

namespace ExactJson.Cli

/-- The values a flag lists. -/
def Flag.options (f : Flag) : List Bytes :=
  match f.value with
  | .choice options => options.map Bytes.ofString
  | _ => []

/-- Completes a flag name and value against a list of flags: the words to offer, whether the
name named one of the flags, and whether the value is complete. -/
def flagCompletion (name value : Bytes) : List Flag → List Bytes × Bool × Bool
  | [] => ([], false, false)
  | f :: rest =>
    if Bytes.ofString f.name == name then
      let options := f.options
      if options.isEmpty then ([], true, true)
      else
        let matched := options.contains value
        let longer := options.any fun o => o != value && value.isPrefixOf o
        (options, true, !longer && matched)
    else
      let (more, named, done) := flagCompletion name value rest
      if named then (more, named, done)
      else ((if f.hidden then more else Bytes.ofString ("--" ++ f.name) :: more), false, false)

/-- What may follow when no flag is being typed: the commands, until one is chosen. -/
def commandCompletion (app : App) (c : Context) : List Bytes :=
  match c.chosen with
  | some _ => []
  | none => app.commands.map fun cmd => Bytes.ofString cmd.name

/-- Whether a word is a long flag. -/
def isLongWord (w : Bytes) : Bool := w.take 2 == [0x2D, 0x2D]

/-- The words that may come next on a command line, given its parse and its words. -/
def completionOptions (app : App) (c : Context) (words : List Bytes) : List Bytes :=
  let typed := words.drop 1
  let current := if 1 < words.length then typed.getLast?.getD [] else []
  let previous := if 2 < words.length then typed[typed.length - 2]?.getD [] else []
  let flags := match c.chosen with
    | some cmd => cmd.flags
    | none => app.flags
  if isLongWord current || isLongWord previous then
    if c.argsOnly then [] else
    let (name, value) :=
      if isLongWord previous && !isLongWord current then (previous.drop 2, current)
      else (current.drop 2, [])
    let (options, named, done) := flagCompletion name value flags
    if done then commandCompletion app c
    else if c.chosen.isSome && !named then
      let (top, topNamed, topDone) := flagCompletion name value app.flags
      if topDone then commandCompletion app c
      else if topNamed then top
      else options ++ top
    else options
  else commandCompletion app c

end ExactJson.Cli
