import ExactJson.Text.Bytes

/-!
# YAML tokens and faults

A YAML text is read in three layers: a scanner turns characters into tokens (indicators,
scalars, and the block structure implied by indentation), a parser turns tokens into a tree of
nodes, and a decoder fits the tree to a record. Positions are marks: a character index and the
zero-based line and column.

A fault of the first two layers renders as `yaml: line N: PROBLEM`, where `N` is the line of
the construct the fault was met in (the context), or failing that the line of the problem
itself, and a scanner's line is counted from one while a parser's is counted from zero; a line
counted as zero is not shown.
-/

namespace ExactJson.Yaml

/-- A position in a YAML text. -/
structure Mark where
  /-- The index of the character. -/
  index : Nat := 0
  /-- The zero-based line. -/
  line : Nat := 0
  /-- The zero-based column. -/
  column : Nat := 0
  deriving DecidableEq, Repr, Inhabited

/-- How a scalar is written. -/
inductive ScalarStyle where
  | plain | singleQuoted | doubleQuoted | literal | folded
  deriving DecidableEq, Repr

/-- The kinds of token. -/
inductive TokenKind where
  | streamStart
  | streamEnd
  | versionDirective (major minor : Nat)
  | tagDirective (handle pfx : Bytes)
  | documentStart
  | documentEnd
  | blockSequenceStart
  | blockMappingStart
  | blockEnd
  | flowSequenceStart
  | flowSequenceEnd
  | flowMappingStart
  | flowMappingEnd
  | blockEntry
  | flowEntry
  | key
  | value
  | alias (name : Bytes)
  | anchor (name : Bytes)
  | tag (handle suffix : Bytes)
  | scalar (text : Bytes) (style : ScalarStyle)
  deriving DecidableEq, Repr

/-- A token with the marks where it starts and ends. -/
structure Token where
  kind : TokenKind
  start : Mark
  stop : Mark
  deriving Repr

/-- The layer that met a fault. -/
inductive Layer where
  /-- Decoding characters. -/
  | reading
  /-- Making tokens. -/
  | scanning
  /-- Making nodes. -/
  | parsing
  deriving DecidableEq, Repr

/-- A fault of the scanner or the parser. -/
structure Fault where
  layer : Layer
  /-- What is wrong. -/
  problem : String
  /-- Where it is wrong. -/
  problemMark : Mark := {}
  /-- What was being read. -/
  context : String := ""
  /-- Where that started. -/
  contextMark : Mark := {}
  deriving Repr

/-- The text of a fault. -/
def Fault.render (f : Fault) : String :=
  let bump (n : Nat) : Nat := if f.layer == .scanning then n + 1 else n
  let line :=
    if f.contextMark.line ≠ 0 then bump f.contextMark.line
    else if f.problemMark.line ≠ 0 then bump f.problemMark.line
    else 0
  let whereText := if line ≠ 0 then "line " ++ toString line ++ ": " else ""
  "yaml: " ++ whereText ++ f.problem

end ExactJson.Yaml
