import ExactJson.Cli.Dispatch
import ExactJson.Settings
import ExactJson.Reader.Bounded
import ExactJson.Value.Lookup
import ExactJson.Cli.Place

/-!
# The `jv` tool

`jv` reads a JSON document from a file or from standard input and works on it:

* `jv format [--indent N] [--sort-keys] [--raw] [-o FILE] [FILE|-]` writes the document back
  out, compact or indented, to standard output or to a file;
* `jv verify [--quiet] [FILE|-]` checks that the document reads, and says `ok`;
* `jv get PATH [FILE|-]` writes the value at a path of object keys and array indexes joined
  by `.`; an empty path or `.` is the whole document.

A settings file given with `--config.file` sets the reader and writer options; the flags of
`format` override them. Every failure is written as `error: TEXT` on standard error, and the
status is 2 for bad input or use and 10 for a failure of the system.

The tool runs over any monad that can read and write files, so that the same definition is
run on the real file system and on a model of one.
-/

namespace ExactJson.Cli

/-- What the tool needs of the system around it: files, and standard input. -/
structure Files (m : Type → Type) where
  read : Bytes → m (Except FileFault Bytes)
  write : Bytes → Bytes → m Unit
  /-- The whole of standard input. -/
  stdin : m Bytes

/-- What a run of the tool gives. -/
structure Run where
  status : Nat
  stdout : Bytes := []
  stderr : Bytes := []
  deriving Repr

section Description

/-- A switch flag. -/
def switch (name help : String) (hidden : Bool := false) (short : Option Char := none) : Flag :=
  { name, help, value := .switch, hidden, short }

/-- A hidden switch that writes a text as soon as it is given. -/
def displaySwitch (name help : String) (d : Display) : Flag :=
  { name, help, value := .switch, hidden := true, display := some d }

/-- The flags of the program. -/
def toolFlags : List Flag :=
  [switch "help" "Show context-sensitive help (also try --help-long and --help-man).",
   displaySwitch "help-long" "Generate long help." .longHelp,
   displaySwitch "help-man" "Generate a man page." .manPage,
   switch "completion-bash" "Output possible completions for the given args." true,
   displaySwitch "completion-script-bash" "Generate completion script for bash." .bashScript,
   displaySwitch "completion-script-zsh" "Generate completion script for ZSH." .zshScript,
   { name := "config.file", help := "YAML configuration file.", value := .text,
     placeholder := "FILE" },
   { name := "log.level", help := "Only log messages with the given severity or above.",
     value := .choice Settings.levels }]

/-- The input argument. -/
def inputArg : Arg := { name := "file", help := "Input file, or - for stdin.", default := some "-" }

/-- The `help` command. -/
def helpCommand : Command :=
  { name := "help", help := "Show help.",
    args := [{ name := "command", help := "Show help on command.", repeated := true }] }

/-- The `format` command. -/
def formatCommand : Command :=
  { name := "format", help := "Read a document and write it back out.",
    flags := [{ name := "indent", help := "Spaces per nesting level; 0 is compact.",
                value := .integer, default := some "-1" },
              switch "sort-keys" "Order object members by UTF-16 code units.",
              switch "raw" "Keep string escapes exactly as written.",
              { name := "output", help := "Atomically write the result to FILE instead of stdout.",
                value := .text, short := some 'o', placeholder := "FILE" }],
    args := [inputArg] }

/-- The `verify` command. -/
def verifyCommand : Command :=
  { name := "verify", help := "Check that a document parses.",
    flags := [switch "quiet" "Suppress the success message." false (some 'q')],
    args := [inputArg] }

/-- The `get` command. -/
def getCommand : Command :=
  { name := "get", help := "Print the value at a dot-separated path.",
    args := [{ name := "path", required := true,
               help := "Dot-separated object keys and array indexes; . selects the root." },
             inputArg] }

/-- The program. -/
def tool : App :=
  { name := "jv", help := "Parse, format, verify and query JSON documents.", flags := toolFlags,
    commands := [helpCommand, formatCommand, verifyCommand, getCommand] }

end Description

/-- The lines of a text as a line scanner with a buffer of 65536 octets reads them: split at
line feeds, a carriage return before a line feed dropped, and a last line without a line feed
kept when it is not empty. A line that does not fit the buffer with its line feed, or a last
line that fills it, is an error. -/
def scanLines (text : Bytes) : Option (List Bytes) :=
  let limit := 65536
  let pieces := text.splitOn 0x0A
  let ended := pieces.dropLast
  let last := pieces.getLast?.getD []
  let trim (l : Bytes) : Bytes := if l.getLast? == some 0x0D then l.dropLast else l
  if ended.any (fun l => limit < l.length + 1) || limit ≤ last.length then none
  else some ((ended ++ (if last.isEmpty then [] else [last])).map trim)

/-- Whether a code point is white space: the ASCII spaces and controls tab to carriage return,
the next line and no-break space controls, and the space separators and line and paragraph
separators beyond them. -/
def isSpaceCode (c : Nat) : Bool :=
  (0x09 ≤ c && c ≤ 0x0D) || c == 0x20 || c == 0x85 || c == 0xA0 || c == 0x1680 ||
    (0x2000 ≤ c && c ≤ 0x200A) || c == 0x2028 || c == 0x2029 || c == 0x202F || c == 0x205F ||
    c == 0x3000

/-- Whether a line is blank: every character white space, octets that are no character
counting as not blank. -/
def isBlankLine (l : Bytes) : Bool :=
  (Utf8.pieces l).all fun p =>
    match p with
    | .scalar c _ => isSpaceCode c
    | .stray _ => false

/-- The arguments an argument file gives: its lines, less blank lines and lines starting with
`#`; or the error. -/
def argumentLines (name : Bytes) (text : Bytes) : Except Bytes (List Bytes) :=
  match scanLines text with
  | none =>
    .error (Bytes.ofString ("failed to read arguments from " ++ Quoted.quote name ++
      ": bufio.Scanner: token too long"))
  | some lines => .ok (lines.filter fun l => l.head? != some 0x23 && !isBlankLine l)

/-- The names of the argument files a list of arguments names with `@`. -/
def fileNames (args : List Bytes) : List Bytes :=
  args.filterMap fun a => if a.head? == some 0x40 && 1 < a.length then some (a.drop 1) else none

/-- What an argument file gives, or the error met opening or reading it. -/
def argumentFile (name : Bytes) (read : Except FileFault Bytes) : Except Bytes (List Bytes) :=
  match read with
  | .ok text => argumentLines name text
  | .error .directory =>
    .error (Bytes.ofString ("failed to read arguments from " ++ Quoted.quote name ++ ": ") ++
      FileFault.readText name .directory)
  | .error f =>
    .error (Bytes.ofString ("failed to open arguments file " ++ Quoted.quote name ++ ": ") ++
      FileFault.readText name f)

/-- The expander of a table of argument files read beforehand. -/
def expanderOf (found : List (Bytes × Except Bytes (List Bytes))) : Expander := fun n =>
  if n.isEmpty then .error (Bytes.ofString "expected @ file to expand arguments from")
  else (found.lookup n).getD (argumentFile n (.error .missing))

/-- A failure as the tool reports it: the line on standard error and the status. -/
def failedRun (said : Bytes) (p : Problem) : Run :=
  { status := p.exitCode, stderr := said ++ Bytes.ofString "error: " ++ p.text ++ [0x0A] }

/-- A classified failure with no offset. -/
def failure (cls : FailureClass) (message : String) (cause : Option Bytes := none) : Problem :=
  .failed { cls, offset := -1, message := Bytes.ofString message, cause }

/-- The dot-separated parts of a path; an empty path or `.` has none. -/
def pathParts (path : Bytes) : List Bytes :=
  if path.isEmpty || path == [0x2E] then [] else path.splitOn 0x2E

/-- `read file "NAME"`, the label of failures reading a named file. -/
def fileLabel (name : Bytes) : Bytes := Bytes.ofString ("read file " ++ Quoted.quote name)

section Running

variable {m : Type → Type} [Monad m]

/-- Reads the input document: standard input for `-` or nothing, else the named file. -/
def readInput (files : Files m) (input : Bytes) (o : ReadOptions) :
    m (Except Problem Value) := do
  if input.isEmpty || input == [0x2D] then
    let stdin ← files.stdin
    pure ((readStream o stdin.toArray).mapError fun f => .within (Bytes.ofString "read stdin") (.failed f))
  else
    match ← files.read input with
    | .error .directory =>
      pure (.error (.within (fileLabel input)
        (failure .internalStream "read input" (some (FileFault.readText input .directory)))))
    | .error f =>
      pure (.error (failure .internalStream "open input"
        (some (fileLabel input ++ Bytes.ofString ": " ++ FileFault.readText input f))))
    | .ok data =>
      pure ((readStream o data.toArray).mapError fun e => .within (fileLabel input) (.failed e))

/-- How loading the settings stops short: with a problem the tool reports, or with a crash. -/
inductive Halt where
  | problem (p : Problem)
  /-- The program crashes, with the runtime's text. -/
  | crash (text : String)

/-- The run of a program that crashed: the runtime's report, and status 2. -/
def crashedRun (said : Bytes) (text : String) : Run :=
  { status := 2, stderr := said ++ Bytes.ofString ("panic: " ++ text ++ " [recovered]\n") }

/-- Loads the settings: the defaults, or the settings file, with the log level flag over
them. -/
def loadSettings (files : Files m) (values : Values) : m (Except Halt Settings) := do
  let path := (values.flags.lookup "config.file").getD []
  let loaded ← if path.isEmpty then pure (Except.ok ({} : Settings))
    else match ← files.read path with
      | .error f =>
        pure (.error (.problem (failure .usage "load config"
          (some (Bytes.ofString "read config: " ++ FileFault.readText path f)))))
      | .ok text =>
        pure ((Settings.ofYaml text).mapError fun
          | .refused e => .problem (failure .usage "load config"
              (some (Bytes.ofString ("config " ++ Quoted.quote path ++ ": ") ++ e)))
          | .crash e => .crash e)
  pure (loaded.map fun s =>
    match values.flags.lookup "log.level" with
    | some l => if l.isEmpty then s else { s with log := { level := l } }
    | none => s)

/-- The single value of an argument, or its default. -/
def argValue (values : Values) (name : String) (default : String) : Bytes :=
  match values.args.lookup name with
  | some (v :: _) => v
  | _ => Bytes.ofString default

/-- The value of a switch. -/
def switchOn (values : Values) (name : String) : Bool :=
  values.flags.lookup name == some (Bytes.ofString "true")

/-- Runs `format`. -/
def runFormat (files : Files m) (s : Settings) (values : Values) :
    m (Except Problem Bytes) := do
  let indent : Int := match values.flags.lookup "indent" with
    | some t => (readWhole t).toOption.getD (-1)
    | none => -1
  let w := s.writeOptions
  let w := if 0 ≤ indent then { w with indent } else w
  if 8 < w.indent then
    return .error (failure .usage ("--indent must be at most 8, got " ++ toString w.indent))
  let w := if switchOn values "sort-keys" then { w with sortKeys := true } else w
  let raw := switchOn values "raw"
  let r := s.readOptions
  let r := if raw then { r with strings := .raw } else r
  let w := if raw then { w with rawStrings := true } else w
  match ← readInput files (argValue values "file" "-") r with
  | .error p => pure (.error p)
  | .ok v =>
    let output := (values.flags.lookup "output").getD []
    match v.write w with
    | .error f =>
      if output.isEmpty then pure (.error (.failed f))
      else pure (.error (.within (Bytes.ofString ("write file " ++ Quoted.quote output)) (.failed f)))
    | .ok text =>
      if output.isEmpty then pure (.ok (text ++ [0x0A]))
      else
        files.write output (text ++ [0x0A])
        pure (.ok [])

/-- Runs `verify`. -/
def runVerify (files : Files m) (s : Settings) (values : Values) :
    m (Except Problem Bytes) := do
  match ← readInput files (argValue values "file" "-") s.readOptions with
  | .error p => pure (.error p)
  | .ok _ => pure (.ok (if switchOn values "quiet" then [] else Bytes.ofString "ok\n"))

/-- Runs `get`. -/
def runGet (files : Files m) (s : Settings) (values : Values) :
    m (Except Problem Bytes) := do
  let path := argValue values "path" ""
  match ← readInput files (argValue values "file" "-") s.readOptions with
  | .error p => pure (.error p)
  | .ok v =>
    match v.lookup (pathParts path) with
    | none =>
      pure (.error (failure .pathNotFound ("path " ++ Quoted.quote path ++ " not found")))
    | some found =>
      match found.write s.writeOptions with
      | .error f => pure (.error (.failed f))
      | .ok text => pure (.ok (text ++ [0x0A]))

/-- Reads the argument files a command line names, and those they name in turn, each once. -/
def readArgumentFiles (files : Files m) (args : List Bytes) :
    m (List (Bytes × Except Bytes (List Bytes))) := do
  let mut found : List (Bytes × Except Bytes (List Bytes)) := []
  let mut queue : List Bytes := (fileNames args).eraseDups
  for _ in [0:4096] do
    match queue with
    | [] => break
    | n :: more =>
      let entry := argumentFile n (← files.read n)
      found := found ++ [(n, entry)]
      let known := more ++ found.map (·.1)
      let fresh := match entry with
        | .ok lines => (fileNames lines).eraseDups.filter (!known.contains ·)
        | .error _ => []
      queue := more ++ fresh
  pure found

/-- Runs the tool on its arguments and standard input. -/
def runTool (files : Files m) (args : List Bytes) : m Run := do
  if args.isEmpty then
    return failedRun (Bytes.ofString (usage tool none)) (failure .usage "no command given")
  let found ← readArgumentFiles files args
  let o := parseArgs tool (expanderOf found) args
  if let some status := o.ended then return { status, stdout := o.stdout, stderr := o.stderr }
  match o.result with
  | .error e =>
    return { failedRun o.stderr (failure .usage "invalid arguments" (some e)) with
      stdout := o.stdout }
  | .ok command =>
    match ← loadSettings files o.values with
    | .error (.problem p) => return failedRun o.stderr p
    | .error (.crash e) => return crashedRun o.stderr e
    | .ok s =>
      let result ←
        if command == "format" then runFormat files s o.values
        else if command == "verify" then runVerify files s o.values
        else if command == "get" then runGet files s o.values
        else pure (.error (failure .usage ("unknown command: " ++ command)))
      match result with
      | .error p => return failedRun o.stderr p
      | .ok out => return { status := 0, stdout := o.stdout ++ out, stderr := o.stderr }

end Running

/-- Reading and writing the files of a folder, the state; names are walked from the folder as
`Folder.place` says, and a write to a name that does not lead into the folder is lost. -/
def Folder.files (stdin : Bytes) : Files (StateM Folder) where
  read name := do return (← get).read name
  write name text := modify fun folder =>
    match folder.entry name with
    | some n => folder.put n text
    | none => folder
  stdin := pure stdin

/-- Runs the tool in a folder: the run, and the folder afterwards. -/
def runInFolder (args : List Bytes) (stdin : Bytes) (folder : Folder) : Run × Folder :=
  (runTool (Folder.files stdin) args).run folder

end ExactJson.Cli
