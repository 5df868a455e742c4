import ExactJson.Yaml.Decode
import ExactJson.Reader.Options
import ExactJson.Writer

/-!
# Settings

The settings of the tools come from a YAML file with three optional sections:

```
parser:
  max_depth: 1000
  max_input_size: 67108864
  max_exponent: 4096
  strings: unescape   # or raw
  exponents: true
serializer:
  sort_keys: false
  indent: 0
  raw_strings: false
log:
  level: warn         # debug, info, warn or error
```

Fields left out keep the values shown. Reading is strict: a field that does not exist, a key
given twice, a value of the wrong kind, or a second document in the file is an error. The
values are then checked in the order above: the three limits must not be negative, `strings`
must name a mode, the indent must be between 0 and 8, and the level must be one of the four.
-/

namespace ExactJson

/-- Settings of the reader. -/
structure ParserSettings where
  maxDepth : Int := 1000
  maxInputSize : Int := 67108864
  maxExponent : Int := 4096
  /-- `unescape` or `raw`. -/
  strings : Bytes := Bytes.ofString "unescape"
  /-- Whether numbers may have an exponent. -/
  exponents : Bool := true
  deriving DecidableEq, Repr

/-- Settings of the writer. -/
structure SerializerSettings where
  sortKeys : Bool := false
  indent : Int := 0
  rawStrings : Bool := false
  deriving DecidableEq, Repr

/-- Settings of logging. -/
structure LogSettings where
  /-- `debug`, `info`, `warn` or `error`. -/
  level : Bytes := Bytes.ofString "warn"
  deriving DecidableEq, Repr

/-- The settings of the tools. -/
structure Settings where
  parser : ParserSettings := {}
  serializer : SerializerSettings := {}
  log : LogSettings := {}
  deriving DecidableEq, Repr

namespace Settings

open Yaml

/-- The shape the settings file is decoded against. -/
def shape : Shape :=
  .record "jvconfig.Config"
    [("parser", .record "jvconfig.ParserConfig"
        [("max_depth", .int), ("max_input_size", .int), ("max_exponent", .int),
         ("strings", .text), ("exponents", .bool)]),
     ("serializer", .record "jvconfig.SerializerConfig"
        [("sort_keys", .bool), ("indent", .int), ("raw_strings", .bool)]),
     ("log", .record "jvconfig.LogConfig" [("level", .text)])]

/-- Settings as a decoded value. -/
def toField (s : Settings) : Field :=
  .record
    [("parser", .record
        [("max_depth", .int s.parser.maxDepth), ("max_input_size", .int s.parser.maxInputSize),
         ("max_exponent", .int s.parser.maxExponent), ("strings", .text s.parser.strings),
         ("exponents", .bool s.parser.exponents)]),
     ("serializer", .record
        [("sort_keys", .bool s.serializer.sortKeys), ("indent", .int s.serializer.indent),
         ("raw_strings", .bool s.serializer.rawStrings)]),
     ("log", .record [("level", .text s.log.level)])]

/-- The field of a record value by name. -/
def member (f : Field) (name : String) : Option Field :=
  match f with
  | .record fs => fs.lookup name
  | _ => none

/-- An integer field, or a fallback. -/
def intOf (f : Field) (name : String) (fallback : Int) : Int :=
  match member f name with
  | some (.int n) => n
  | _ => fallback

/-- A boolean field, or a fallback. -/
def boolOf (f : Field) (name : String) (fallback : Bool) : Bool :=
  match member f name with
  | some (.bool b) => b
  | _ => fallback

/-- A string field, or a fallback. -/
def textOf (f : Field) (name : String) (fallback : Bytes) : Bytes :=
  match member f name with
  | some (.text t) => t
  | _ => fallback

/-- Settings from a decoded value; what it lacks keeps the defaults. -/
def ofField (f : Field) : Settings :=
  let d : Settings := {}
  let p := (member f "parser").getD (.record [])
  let s := (member f "serializer").getD (.record [])
  let l := (member f "log").getD (.record [])
  { parser :=
      { maxDepth := intOf p "max_depth" d.parser.maxDepth
        maxInputSize := intOf p "max_input_size" d.parser.maxInputSize
        maxExponent := intOf p "max_exponent" d.parser.maxExponent
        strings := textOf p "strings" d.parser.strings
        exponents := boolOf p "exponents" d.parser.exponents }
    serializer :=
      { sortKeys := boolOf s "sort_keys" d.serializer.sortKeys
        indent := intOf s "indent" d.serializer.indent
        rawStrings := boolOf s "raw_strings" d.serializer.rawStrings }
    log := { level := textOf l "level" d.log.level } }

/-- The log levels. -/
def levels : List String := ["debug", "info", "warn", "error"]

/-- Checks the values, in order; the first that is wrong gives the error. -/
def validate (s : Settings) : Except Bytes Unit := do
  let fail (m : String) : Except Bytes Unit := .error (Bytes.ofString m)
  if s.parser.maxDepth < 0 then
    fail ("parser.max_depth must not be negative, got " ++ toString s.parser.maxDepth)
  else if s.parser.maxInputSize < 0 then
    fail ("parser.max_input_size must not be negative, got " ++ toString s.parser.maxInputSize)
  else if s.parser.maxExponent < 0 then
    fail ("parser.max_exponent must not be negative, got " ++ toString s.parser.maxExponent)
  else if !(s.parser.strings == Bytes.ofString "unescape" || s.parser.strings == Bytes.ofString "raw")
  then
    .error (Bytes.ofString "parser.strings must be \"unescape\" or \"raw\", got " ++
      Bytes.ofString (Quoted.quote s.parser.strings))
  else if s.serializer.indent < 0 || 8 < s.serializer.indent then
    fail ("serializer.indent must be between 0 and 8, got " ++ toString s.serializer.indent)
  else if !levels.any (fun l => Bytes.ofString l == s.log.level) then
    .error (Bytes.ofString "log.level: unrecognized log level " ++
      Bytes.ofString (Quoted.quote s.log.level))
  else pure ()

/-- Joins texts with a separator. -/
def joinWith (sep : Bytes) : List Bytes → Bytes
  | [] => []
  | [x] => x
  | x :: rest => x ++ sep ++ joinWith sep rest

/-- Why a settings file could not be read. -/
inductive LoadFault where
  /-- The file is refused, for the reason given. -/
  | refused (text : Bytes)
  /-- Decoding the file crashed, with the runtime's text. -/
  | crash (text : String)
  deriving Repr

/-- Reads settings from the text of a settings file. Empty text gives the defaults. -/
def ofYaml (text : Bytes) : Except LoadFault Settings := do
  let wrap (m : Bytes) : LoadFault := .refused (Bytes.ofString "decode config yaml: " ++ m)
  let parser : Yaml.Parser := { scan := Yaml.scan text.toArray }
  let (doc, parser) ← match Yaml.nextDocument.run parser with
    | .error f => .error (wrap (Bytes.ofString f.render))
    | .ok r => .ok r
  let settings ← match doc with
    | none => pure ({} : Settings)
    | some doc =>
      match decodeDocument shape (toField {}) doc with
      | .error (.fault e) => .error (wrap e)
      | .error (.crash e) => .error (.crash e)
      | .ok (f, errs) =>
        if errs.isEmpty then pure (ofField f)
        else .error (wrap (Bytes.ofString "yaml: unmarshal errors:\n  " ++
          joinWith (Bytes.ofString "\n  ") errs.toList))
  match Yaml.nextDocument.run parser with
  | .error f =>
    .error (wrap (Bytes.ofString ("decode trailing yaml document: " ++ f.render)))
  | .ok (some _, _) => .error (wrap (Bytes.ofString "unexpected trailing yaml document"))
  | .ok (none, _) => pure ()
  (validate settings).mapError .refused
  pure settings

/-- The reader options the settings describe. -/
def readOptions (s : Settings) : ReadOptions :=
  { maxDepth := s.parser.maxDepth, maxInputSize := s.parser.maxInputSize,
    maxExponent := s.parser.maxExponent,
    strings := if s.parser.strings == Bytes.ofString "raw" then .raw else .unescape,
    rejectExponent := !s.parser.exponents }

/-- The writer options the settings describe. -/
def writeOptions (s : Settings) : WriteOptions :=
  { sortKeys := s.serializer.sortKeys, indent := s.serializer.indent,
    rawStrings := s.serializer.rawStrings }

end Settings

end ExactJson
