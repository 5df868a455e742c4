import ExactJson.Text.Bytes

/-!
# Command lines described as data

A command line is described by its flags, its commands, and each command's own flags and
positional arguments. The parser and the usage text are both read off that description.

The usage text has a head line (`usage: NAME [COMMAND] SUMMARY`), the help of the command or
program, and then sections, each a heading and a list:

* `Flags:` every visible flag in reach, in two columns: `--name=PLACEHOLDER` (or
  `--[no-]name` for a switch, with `-c, ` before it when it has a short form) and its help;
* `Args:` the positional arguments of the chosen command, `<name>`, in brackets when
  optional;
* `Commands:` when no command is chosen, each command with its summary and its help below
  it, indented by four.

Help text is wrapped to the width of the line, 80 columns, less the first column.

Three more texts are read off the description: the long help, which lists every command with
its own flags below it; a manual page; and completion scripts for bash and the Z shell, which
ask the program itself for the words that may come next.
-/

namespace ExactJson.Cli

/-- What a flag holds. -/
inductive FlagValue where
  /-- A boolean, given by the flag alone, or `--no-` before its name for false. -/
  | switch
  /-- A string. -/
  | text
  /-- An integer, in decimal or with a base prefix. -/
  | integer
  /-- One of a fixed list of strings. -/
  | choice (options : List String)
  deriving DecidableEq, Repr

/-- A text a flag writes to standard output as soon as the command line is read. -/
inductive Display where
  /-- The long help: every command with its own flags. -/
  | longHelp
  /-- The manual page. -/
  | manPage
  /-- The completion script for bash. -/
  | bashScript
  /-- The completion script for the Z shell. -/
  | zshScript
  deriving DecidableEq, Repr

/-- A flag. -/
structure Flag where
  name : String
  help : String
  value : FlagValue
  /-- The one-letter form, written `-c`. -/
  short : Option Char := none
  /-- Left out of the usage text. -/
  hidden : Bool := false
  /-- What stands for the value in the usage text. -/
  placeholder : String := ""
  /-- The value when the flag is not given. -/
  default : Option String := none
  /-- What the flag writes as soon as it is given, whatever its value. -/
  display : Option Display := none
  deriving DecidableEq, Repr

/-- A positional argument. -/
structure Arg where
  name : String
  help : String
  required : Bool := false
  /-- Takes every remaining argument. -/
  repeated : Bool := false
  /-- The value when the argument is not given. -/
  default : Option String := none
  deriving DecidableEq, Repr

/-- A command. -/
structure Command where
  name : String
  help : String
  flags : List Flag := []
  args : List Arg := []
  deriving DecidableEq, Repr

/-- A program with commands. -/
structure App where
  name : String
  help : String
  flags : List Flag
  commands : List Command
  deriving Repr

/-- The width of the usage text. -/
def lineWidth : Nat := 80

/-- Words wrapped into lines of at most `width` characters; a longer word has a line of its
own. -/
def wrapWords (width : Nat) (text : String) : List String :=
  let words := (text.splitOn " ").filter (· ≠ "")
  let (lines, last) := words.foldl (fun (acc : List String × String) w =>
      let (done, cur) := acc
      if cur.isEmpty then (done, w)
      else if cur.length + 1 + w.length ≤ width then (done, cur ++ " " ++ w)
      else (done ++ [cur], w)) ([], "")
  lines ++ [last]

/-- A help text wrapped to the line, each line indented by `indent` spaces and ended. -/
def wrapHelp (indent : Nat) (text : String) : String :=
  String.join ((wrapWords (lineWidth - indent) text).map fun l =>
    String.ofList (List.replicate indent ' ') ++ l ++ "\n")

/-- Rows of two columns, each row indented by `indent` spaces: the first column padded to the
widest entry below 30 characters, then `padding` spaces, and the second column wrapped to the
rest of the line and continued under itself. A first column of 30 characters or more stands
on a line of its own. -/
def columnsAt (indent padding : Nat) (rows : List (String × String)) : String :=
  let first := rows.foldl (fun m r => if m < r.1.length && r.1.length < 30 then r.1.length else m) 0
  let lead := String.ofList (List.replicate indent ' ')
  let gap := String.ofList (List.replicate padding ' ')
  let offset := String.ofList (List.replicate (first + padding) ' ')
  String.join (rows.map fun (name, help) =>
    let lines := wrapWords (lineWidth - first - padding - indent) help
    let pad := String.ofList (List.replicate (first - name.length) ' ')
    let head := lead ++ name ++ pad ++ gap ++
      (if 30 ≤ name.length then "\n" ++ lead ++ offset else "")
    match lines with
    | [] => head ++ "\n"
    | l :: more => head ++ l ++ "\n" ++ String.join (more.map fun m => lead ++ offset ++ m ++ "\n"))

/-- Rows of two columns indented by two spaces, with two spaces between the columns. -/
def twoColumns (rows : List (String × String)) : String := columnsAt 2 2 rows

namespace Flag

/-- Whether the flag is a switch. -/
def isSwitch (f : Flag) : Bool := f.value == .switch

/-- What stands for the flag's value: its placeholder, its default, or its name in capitals. -/
def placeholderText (f : Flag) : String :=
  if f.placeholder ≠ "" then f.placeholder
  else match f.default with
    | some d => if f.value == .text then "\"" ++ d ++ "\"" else d
    | none => f.name.toUpper

/-- The first column of the flag's row. -/
def column (haveShort : Bool) (f : Flag) : String :=
  let name := if f.isSwitch then "[no-]" ++ f.name else f.name
  let head := match f.short with
    | some c => "-" ++ c.toString ++ ", --" ++ name
    | none => (if haveShort then "    --" else "--") ++ name
  if f.isSwitch then head else head ++ "=" ++ f.placeholderText

end Flag

/-- The first column of an argument's row. -/
def Arg.column (a : Arg) : String :=
  let s := "<" ++ a.name ++ ">"
  if a.required then s else "[" ++ s ++ "]"

/-- The summary of a command's flags and arguments after its name. -/
def summary (flags : List Flag) (args : List Arg) : String :=
  let flagPart := if flags.any (·.name ≠ "help") then " [<flags>]" else ""
  flagPart ++ String.join (args.map fun a =>
    " " ++ (if a.required then "" else "[") ++ "<" ++ a.name ++ ">" ++
      (if a.repeated then "..." else "") ++ (if a.required then "" else "]"))

/-- The rows of the visible flags of a list, indented by `indent`; when any flag of the list has
a one-letter form, the others are moved right to line up with its long form. -/
def flagRowsAt (indent : Nat) (flags : List Flag) : String :=
  let haveShort := flags.any (·.short.isSome)
  columnsAt indent 2 ((flags.filter (!·.hidden)).map fun f => (f.column haveShort, f.help))

/-- The `Flags:` rows of a list of flags. -/
def flagRows (flags : List Flag) : String := flagRowsAt 2 flags

/-- The `Args:` rows of a list of arguments. -/
def argRows (args : List Arg) : String := twoColumns (args.map fun a => (a.column, a.help))

/-- The synopsis of a program: its name, the summary of its flags, and the place of a command. -/
def synopsis (app : App) : String :=
  app.name ++ summary app.flags [] ++
    (if app.commands.isEmpty then "" else " <command> [<args> ...]")

/-- The usage text of a program, for a chosen command or for the program itself. -/
def usage (app : App) (chosen : Option Command) : String :=
  match chosen with
  | some c =>
    let flags := app.flags ++ c.flags
    "usage: " ++ app.name ++ " " ++ c.name ++ summary c.flags c.args ++ "\n" ++
      (if c.help ≠ "" then "\n" ++ wrapHelp 0 c.help else "") ++ "\n\n" ++
      "Flags:\n" ++ flagRows flags ++ "\n" ++
      (if c.args.isEmpty then "" else "Args:\n" ++ argRows c.args ++ "\n")
  | none =>
    "usage: " ++ synopsis app ++ "\n" ++
      (if app.help ≠ "" then "\n" ++ wrapHelp 0 app.help else "") ++ "\n\n" ++
      "Flags:\n" ++ flagRows app.flags ++ "\n" ++
      (if app.commands.isEmpty then ""
       else "Commands:\n" ++ String.join (app.commands.map fun c =>
         c.name ++ summary c.flags c.args ++ "\n" ++ wrapHelp 4 c.help ++ "\n") ++ "\n")

/-- The long help: the usage line of the program, the flags and arguments in reach, and every
command with its help and its own flags. -/
def longHelp (app : App) (flags : List Flag) (args : List Arg) : String :=
  "usage: " ++ synopsis app ++ "\n" ++
    (if app.help ≠ "" then "\n" ++ wrapHelp 0 app.help else "") ++ "\n" ++
    (if flags.isEmpty then "" else "Flags:\n" ++ flagRows flags ++ "\n") ++
    (if args.isEmpty then "" else "Args:\n" ++ argRows args ++ "\n") ++
    (if app.commands.isEmpty then ""
     else "Commands:\n" ++ String.join (app.commands.map fun c =>
       c.name ++ summary c.flags c.args ++ "\n" ++ wrapHelp 4 c.help ++ "\n" ++
         flagRowsAt 4 c.flags ++ "\n") ++ "\n")

/-- A flag as the manual page names it: `-c, --name=PLACEHOLDER`, without the placeholder for a
switch. -/
def Flag.manName (f : Flag) : String :=
  (match f.short with
   | some c => "-" ++ c.toString ++ ", "
   | none => "") ++ "--" ++ f.name ++ (if f.isSwitch then "" else "=" ++ f.placeholderText)

/-- The visible flags of a list as tagged paragraphs of a manual page. -/
def manFlags (flags : List Flag) : String :=
  String.join ((flags.filter (!·.hidden)).map fun f =>
    ".TP\n\\fB" ++ f.manName ++ "\\fR\n" ++ f.help ++ "\n")

/-- The manual page of a program, in the markup of the classic manual formatter: its name,
synopsis, help, flags, and each command with its own flags. -/
def manPage (app : App) : String :=
  ".TH " ++ app.name ++ " 1  \"\"\n.SH \"NAME\"\n" ++ app.name ++ "\n" ++
    ".SH \"SYNOPSIS\"\n.TP\n\\fB" ++ synopsis app ++ "\\fR\n\n" ++
    ".SH \"DESCRIPTION\"\n" ++ app.help ++ "\n.SH \"OPTIONS\"\n" ++ manFlags app.flags ++
    (if app.commands.isEmpty then ""
     else ".SH \"COMMANDS\"\n" ++ String.join (app.commands.map fun c =>
       ".SS\n\\fB" ++ c.name ++ summary c.flags c.args ++ "\\fR\n.PP\n" ++ c.help ++ "\n" ++
         manFlags c.flags))

/-- A completion script for the bash shell: it asks the program itself for the words that may
come next, by running it with `--completion-bash` and the words typed so far. -/
def bashScript (app : App) : String :=
  let n := app.name
  "\n_" ++ n ++ "_bash_autocomplete() \x7b\n" ++
    "    local cur prev opts base\n" ++
    "    COMPREPLY=()\n" ++
    "    cur=\"$\x7bCOMP_WORDS[COMP_CWORD]\x7d\"\n" ++
    "    opts=$( $\x7bCOMP_WORDS[0]\x7d --completion-bash \"$\x7bCOMP_WORDS[@]:1:$COMP_CWORD\x7d\" )\n" ++
    "    COMPREPLY=( $(compgen -W \"$\x7bopts\x7d\" -- $\x7bcur\x7d) )\n" ++
    "    return 0\n" ++
    "\x7d\n" ++
    "complete -F _" ++ n ++ "_bash_autocomplete -o default " ++ n ++ "\n\n"

/-- A completion script for the Z shell, asking the program for completions the same way, and
falling back to file names when it has none. -/
def zshScript (app : App) : String :=
  let n := app.name
  "#compdef " ++ n ++ "\n" ++
    "\n" ++
    "_" ++ n ++ "() \x7b\n" ++
    "    local matches=($($\x7bwords[1]\x7d --completion-bash \"$\x7b(@)words[1,$CURRENT]\x7d\"))\n" ++
    "    compadd -a matches\n" ++
    "\n" ++
    "    if [[ $compstate[nmatches] -eq 0 && $words[$CURRENT] != -* ]]; then\n" ++
    "        _files\n" ++
    "    fi\n" ++
    "\x7d\n" ++
    "\n" ++
    "if [[ \"$(basename -- $\x7b(%):-%x\x7d)\" != \"_" ++ n ++ "\" ]]; then\n" ++
    "    compdef _" ++ n ++ " " ++ n ++ "\n" ++
    "fi\n"

/-- The text a display flag writes, given the flags and arguments in reach. -/
def Display.text (app : App) (flags : List Flag) (args : List Arg) : Display → String
  | .longHelp => Cli.longHelp app flags args
  | .manPage => Cli.manPage app
  | .bashScript => Cli.bashScript app
  | .zshScript => Cli.zshScript app

end ExactJson.Cli
