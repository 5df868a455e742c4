import ExactJson.Yaml.Token
import ExactJson.Yaml.Input

/-!
# Scanning YAML

The scanner turns the characters of a YAML text into tokens. Most tokens are read where they
stand; two kinds are placed after the fact:

* a *simple key* (a key written without `?`) is only known to be a key when the `:` after it
  is met, so the place where a key may start is kept, with the number of tokens made before
  it, and the `key` token is inserted there when the `:` comes;
* the block structure is implied by indentation: a `blockMappingStart` or
  `blockSequenceStart` is inserted when a line goes deeper than the current indentation, and
  `blockEnd`s are made when it comes back out.

A simple key must lie on one line and within 1024 characters; a key at the indentation of a
block mapping *must* be a key, and not finding its `:` is a fault.

Every loop of the scanner moves over at least one character per round, so each is bounded by
the length of the input.

Characters are read from a buffer that is filled from the decoded pieces of the stream
(`Input`) only when a step asks for more characters than it holds: `need n` makes sure that
`n` characters from the position are there, and when they are not, the buffer first moves to
start at the position. Where the steps ask, and for how many, is part of what the scanner does:
it decides when a fault of the stream is met, and where the buffer starts, which matters
because a line starts by passing over one character whenever the buffer starts with a byte
order mark.

After most tokens, the blanks and a comment that follow on the same line are read at once,
looking ahead over the blanks for the comment; a comment line before a token is looked past,
over blank characters and empty lines, for more comment lines. These two looks ahead stop
quietly where the buffer cannot be filled: the fault of the stream they meet is kept aside
(`late`), the characters decoded before it stay readable, and scanning goes on until a step
asks for more than those.

A parser takes tokens from the scanner as it needs them, with a lookahead of three tokens,
and of as many more as it takes to settle a simple key it is looking at. The scanner here
reads the whole text at once, and a fault records how many tokens a parser may take before it
would have met the fault: `Scanner.reach`.
-/

namespace ExactJson.Yaml

/-- A place where a simple key may start. -/
structure SimpleKey where
  /-- A key may start here. -/
  possible : Bool := false
  /-- A key must start here. -/
  required : Bool := false
  /-- The number of tokens made before it. -/
  tokenNumber : Nat := 0
  /-- Where it starts. -/
  mark : Mark := {}
  deriving Repr

/-- The state of the scanner. -/
structure Scanner where
  /-- The characters of the stream that decode, in UTF-8. -/
  input : Array UInt8
  /-- The pieces the characters are decoded in: the number of characters up to the end of
  each. -/
  pieces : Array Nat := #[]
  /-- The fault met decoding the last piece, if any. -/
  readFault : Option String := none
  /-- The end of the stream is known as soon as the first piece is decoded. -/
  endsEarly : Bool := false
  /-- The number of pieces decoded into the buffer. -/
  decoded : Nat := 0
  /-- The number of characters decoded into the buffer. -/
  available : Nat := 0
  /-- The end markers put in the buffer after the last character. -/
  ends : Nat := 0
  /-- The octet position where the buffer starts. -/
  bufferStart : Nat := 0
  /-- The line breaks passed since the last character that is not blank. -/
  newlines : Nat := 0
  /-- The octet position. -/
  pos : Nat := 0
  /-- The character position. -/
  mark : Mark := {}
  tokens : Array Token := #[]
  started : Bool := false
  finished : Bool := false
  flowLevel : Nat := 0
  /-- The indentation of the innermost block collection; -1 at the top. -/
  indent : Int := -1
  /-- The indentations of the enclosing block collections. -/
  indents : List Int := []
  /-- A simple key may start at the current position. -/
  keyAllowed : Bool := false
  /-- The simple key of each flow level, the innermost first. -/
  keys : List SimpleKey := []
  /-- The number of tokens when the current fetch began. -/
  fetchTokens : Nat := 0
  /-- The position when the current fetch began. -/
  fetchMark : Mark := {}
  /-- The token number of the simple key whose `:` was not found. -/
  blamed : Option Nat := none
  /-- The fault of the stream met by a look ahead, with the reach of the fetch that met it. -/
  late : Option (Fault × Nat) := none

/-- The scanner's steps: they change the state, or stop with a fault. -/
abbrev ScanM := ExceptT Fault (StateM Scanner)

/-- The deepest nesting of flow or block collections. -/
def maxNesting : Nat := 10000

namespace Scanner

/-- The octet `k` places after the position; zero past the end. -/
def octet (s : Scanner) (k : Nat) : UInt8 := s.input.getD (s.pos + k) 0

/-- The octets after the position start with `w`. -/
def looksAt (s : Scanner) (w : String) : Bool :=
  (List.range w.utf8ByteSize).all fun k => s.octet k == w.toUTF8.get! k

/-- The input ends `k` places after the position. -/
def isEnd (s : Scanner) (k : Nat) : Bool := s.octet k == 0

/-- A line break starts `k` places after the position. -/
def isBreak (s : Scanner) (k : Nat) : Bool :=
  let b := s.octet k
  b == 0x0D || b == 0x0A || (b == 0xC2 && s.octet (k + 1) == 0x85) ||
    (b == 0xE2 && s.octet (k + 1) == 0x80 && (s.octet (k + 2) == 0xA8 || s.octet (k + 2) == 0xA9))

/-- A space or a tab stands `k` places after the position. -/
def isBlank (s : Scanner) (k : Nat) : Bool := s.octet k == 0x20 || s.octet k == 0x09

/-- A line break or the end. -/
def isBreakOrEnd (s : Scanner) (k : Nat) : Bool := s.isBreak k || s.isEnd k

/-- A blank, a line break or the end. -/
def isSpaced (s : Scanner) (k : Nat) : Bool := s.isBlank k || s.isBreakOrEnd k

/-- A letter, a digit, `_` or `-`. -/
def isWordAt (s : Scanner) (k : Nat) : Bool :=
  let b := s.octet k
  (0x30 ≤ b && b ≤ 0x39) || (0x41 ≤ b && b ≤ 0x5A) || (0x61 ≤ b && b ≤ 0x7A) || b == 0x5F ||
    b == 0x2D

/-- A decimal digit. -/
def isDigitAt (s : Scanner) (k : Nat) : Bool := 0x30 ≤ s.octet k && s.octet k ≤ 0x39

/-- The value of a hexadecimal digit. -/
def hexDigit? (b : UInt8) : Option Nat :=
  if 0x30 ≤ b && b ≤ 0x39 then some (b - 0x30).toNat
  else if 0x41 ≤ b && b ≤ 0x46 then some (b - 0x37).toNat
  else if 0x61 ≤ b && b ≤ 0x66 then some (b - 0x57).toNat
  else none

/-- The number of octets of a character, from its first octet. -/
def width (b : UInt8) : Nat :=
  if b < 0x80 then 1 else if b &&& 0xE0 == 0xC0 then 2 else if b &&& 0xF0 == 0xE0 then 3
  else if b &&& 0xF8 == 0xF0 then 4 else 1

/-- Moves over one character of a line. -/
def skip (s : Scanner) : Scanner :=
  { s with pos := s.pos + width (s.octet 0),
           mark := { s.mark with index := s.mark.index + 1, column := s.mark.column + 1 },
           newlines := if s.isBlank 0 then s.newlines else 0 }

/-- Moves over a line break; a carriage return and line feed count as one. -/
def skipLine (s : Scanner) : Scanner :=
  if s.octet 0 == 0x0D && s.octet 1 == 0x0A then
    { s with pos := s.pos + 2,
             mark := { index := s.mark.index + 2, line := s.mark.line + 1, column := 0 },
             newlines := s.newlines + 1 }
  else if s.isBreak 0 then
    { s with pos := s.pos + width (s.octet 0),
             mark := { index := s.mark.index + 1, line := s.mark.line + 1, column := 0 },
             newlines := s.newlines + 1 }
  else s

/-- The characters in the buffer not yet read, end markers included. -/
def unread (s : Scanner) : Nat := s.available + s.ends - s.mark.index

/-- The buffer starts with a byte order mark. -/
def bufferIsBom (s : Scanner) : Bool :=
  s.input.getD s.bufferStart 0 == 0xEF && s.input.getD (s.bufferStart + 1) 0 == 0xBB &&
    s.input.getD (s.bufferStart + 2) 0 == 0xBF

/-- The octets of the character at the position. -/
def char (s : Scanner) : Array UInt8 := s.input.extract s.pos (s.pos + width (s.octet 0))

/-- The text a line break stands for: a line feed, or the line or paragraph separator. -/
def breakText (s : Scanner) : Array UInt8 :=
  if s.octet 0 == 0xE2 then s.char else #[0x0A]

/-- A bound on the rounds of any loop from the position. -/
def rounds (s : Scanner) : Nat := s.input.size - s.pos + 2

/-- The number of tokens a parser takes before it meets a fault raised in the state `s`:
the fetch that failed was made when fewer than three tokens stood after the one the parser
looked at, or when that one was a simple key still standing. -/
def reach (s : Scanner) : Nat :=
  let standing := s.keys.filterMap fun k =>
    if k.possible && s.fetchMark.line ≤ k.mark.line && s.fetchMark.index ≤ k.mark.index + 1024
    then some k.tokenNumber else none
  let blamed := s.blamed.toList
  (standing ++ blamed).foldl min (s.fetchTokens - 2)

end Scanner

section Steps

open Scanner

/-- Stops with a fault at the position. -/
def scanFault {α : Type} (context : String) (contextMark : Mark) (problem : String) :
    ScanM α := do
  let s ← get
  throw { layer := .scanning, problem, problemMark := s.mark, context, contextMark }

/-- Moves over one character. -/
def advance : ScanM Unit := modify Scanner.skip

/-- Makes sure that `n` characters from the position are in the buffer. When fewer are, the
buffer moves to start at the position, and pieces are decoded into it until there are enough,
or the stream ends, which puts an end marker in it; a fault of a piece stops the scanner. -/
def need (n : Nat) : ScanM Unit := do
  if n ≤ (← get).unread then return
  modify fun s => { s with bufferStart := s.pos }
  for _ in [0:(← get).pieces.size + 1] do
    let s ← get
    if n ≤ s.unread then break
    match s.pieces[s.decoded]? with
    | some count =>
      set { s with available := count, decoded := s.decoded + 1 }
      if s.decoded + 1 == s.pieces.size then
        if let some problem := s.readFault then throw { layer := .reading, problem }
        if s.endsEarly then
          modify fun s => { s with ends := s.ends + 1 }
          break
    | none =>
      -- past a fault, every further piece meets it again
      if let some problem := s.readFault then throw { layer := .reading, problem }
      set { s with ends := s.ends + 1 }
      break

/-- `need n` for a look ahead: false when the buffer cannot be filled, the fault kept aside. -/
def needAhead (n : Nat) : ScanM Bool :=
  tryCatch (do need n; pure true) fun f => do
    modify fun s => { s with late := s.late <|> some (f, s.reach) }
    pure false

/-- Moves over characters while `p` holds, never past the end, making sure of the character
looked at each time. -/
def advanceWhile (p : Scanner → Bool) : ScanM Unit := do
  need 1
  for _ in [0:(← get).rounds] do
    let s ← get
    if p s && !s.isEnd 0 then
      advance
      need 1
    else break

/-- Appends a token. -/
def emit (kind : TokenKind) (start stop : Mark) : ScanM Unit :=
  modify fun s => { s with tokens := s.tokens.push { kind, start, stop } }

/-- Inserts a token so that `n` tokens stand before it. -/
def insertToken (n : Nat) (t : Token) : ScanM Unit :=
  modify fun s =>
    { s with tokens := (s.tokens.extract 0 n).push t ++ s.tokens.extract n s.tokens.size }

/-- Drops the simple key of the current flow level; a required one is a fault. -/
def removeKey : ScanM Unit := do
  let s ← get
  match s.keys with
  | k :: rest =>
    if k.possible then
      if k.required then
        set { s with blamed := some k.tokenNumber }
        scanFault "while scanning a simple key" k.mark "could not find expected ':'"
      else set { s with keys := { k with possible := false } :: rest }
  | [] => pure ()

/-- Records that a simple key may start at the position. -/
def saveKey : ScanM Unit := do
  let s ← get
  if s.keyAllowed then
    let k : SimpleKey :=
      { possible := true, required := s.flowLevel == 0 && s.indent == (s.mark.column : Int),
        tokenNumber := s.tokens.size, mark := s.mark }
    removeKey
    modify fun s => { s with keys := k :: s.keys.drop 1 }

/-- Whether the simple key of the current flow level still stands: on the line of the
position and within 1024 characters of it. A required key that no longer stands is a
fault. -/
def keyStands : ScanM Bool := do
  let s ← get
  match s.keys with
  | k :: rest =>
    if !k.possible then pure false
    else if k.mark.line < s.mark.line || k.mark.index + 1024 < s.mark.index then
      if k.required then
        set { s with blamed := some k.tokenNumber }
        scanFault "while scanning a simple key" k.mark "could not find expected ':'"
      else
        set { s with keys := { k with possible := false } :: rest }
        pure false
    else pure true
  | [] => pure false

/-- Opens a flow collection. -/
def enterFlow : ScanM Unit := do
  let s ← get
  set { s with keys := { mark := s.mark } :: s.keys, flowLevel := s.flowLevel + 1 }
  if maxNesting < s.flowLevel + 1 then
    scanFault "while increasing flow level" s.mark
      ("exceeded max depth of " ++ toString maxNesting)

/-- Closes a flow collection. -/
def leaveFlow : ScanM Unit :=
  modify fun s =>
    if 0 < s.flowLevel then { s with flowLevel := s.flowLevel - 1, keys := s.keys.drop 1 }
    else s

/-- Opens a block collection at `column` when it is deeper than the current indentation,
with its start token inserted after `number` tokens, or appended. -/
def rollIndent (column : Nat) (number : Option Nat) (kind : TokenKind) (mark : Mark) :
    ScanM Unit := do
  let s ← get
  if s.flowLevel == 0 && s.indent < (column : Int) then
    set { s with indents := s.indent :: s.indents, indent := column }
    if maxNesting < s.indents.length + 1 then
      scanFault "while increasing indent level" ((s.keys.head?.map (·.mark)).getD {})
        ("exceeded max depth of " ++ toString maxNesting)
    let t : Token := { kind, start := mark, stop := mark }
    match number with
    | some n => insertToken n t
    | none => modify fun s => { s with tokens := s.tokens.push t }

/-- Closes the block collections deeper than `column`. -/
def unrollIndent (column : Int) (scanMark : Mark) : ScanM Unit := do
  let s ← get
  if s.flowLevel == 0 then
    let blockMark := { scanMark with index := scanMark.index - 1 }
    for _ in [0:s.indents.length + 1] do
      let s ← get
      if column < s.indent then
        set { s with
          tokens := s.tokens.push { kind := .blockEnd, start := blockMark, stop := blockMark },
          indent := s.indents.headD (-1), indents := s.indents.drop 1 }
      else break

/-- Moves over the rest of a comment line whose text starts `ahead` octets on, past the line
breaks before it, up to the line break that ends it. -/
def passComment (ahead : Nat) : ScanM Unit := do
  let seen := (← get).mark.index + ahead
  for _ in [0:(← get).rounds] do
    need 1
    let s ← get
    if s.isBreakOrEnd 0 then
      if seen ≤ s.mark.index then break
      need 2
      modify Scanner.skipLine
    else advance

/-- Moves over comment lines, and the blank characters and empty lines between them, up to the
line break that ends the last; the lines after a comment are looked at octet by octet, at most
512 octets ahead, for one more. -/
def scanComments : ScanM Unit := do
  let mut ahead := 0
  for _ in [0:513 * ((← get).rounds + 1)] do
    if 512 ≤ ahead then break
    if !(← needAhead (ahead + 1)) then break
    let s ← get
    let c := s.octet ahead
    if s.isBlank ahead then
      ahead := ahead + 1
      continue
    if (0 < s.flowLevel && (c == 0x5D || c == 0x7D)) || s.isBreakOrEnd ahead then
      if !s.isBreak ahead then break
      ahead := ahead + 1
      continue
    if c != 0x23 then break
    passComment ahead
    ahead := 1

/-- Moves over the blanks and the comment that follow a token on its line, when no line break
came since its last character: the octets after it are looked at, over blanks, for a `#`. -/
def lineComment : ScanM Unit := do
  if 0 < (← get).newlines then return
  for ahead in [0:512] do
    if !(← needAhead (ahead + 1)) then break
    let s ← get
    if s.isBlank ahead then continue
    if s.octet ahead == 0x23 then passComment ahead
    break

/-- Moves over blanks, comments and line breaks to the next token. Tabs are skipped only in a
flow collection or where no simple key may start. A line starts by passing over one character
when the buffer starts with a byte order mark. -/
def skipToToken : ScanM Unit := do
  for _ in [0:(← get).rounds] do
    need 1
    if (← get).mark.column == 0 && (← get).bufferIsBom then advance
    advanceWhile fun s =>
      s.octet 0 == 0x20 || ((0 < s.flowLevel || !s.keyAllowed) && s.octet 0 == 0x09)
    if (← get).octet 0 == 0x23 then scanComments
    if (← get).isBreak 0 then
      need 2
      modify fun s =>
        { s.skipLine with keyAllowed := if s.flowLevel == 0 then true else s.keyAllowed }
    else break

/-- Starts the stream. -/
def fetchStreamStart : ScanM Unit := do
  modify fun s => { s with indent := -1, keyAllowed := true, keys := [{}], started := true }
  let s ← get
  emit .streamStart s.mark s.mark

/-- Ends the stream, on a line of its own. -/
def fetchStreamEnd : ScanM Unit := do
  modify fun s =>
    if s.mark.column ≠ 0 then { s with mark := { s.mark with column := 0, line := s.mark.line + 1 } }
    else s
  let s ← get
  unrollIndent (-1) s.mark
  removeKey
  modify fun s => { s with keyAllowed := false, finished := true }
  emit .streamEnd s.mark s.mark

/-- Reads a tag handle: `!`, `!!` or `!word!`. -/
def scanTagHandle (directive : Bool) (start : Mark) : ScanM (Array UInt8) := do
  need 1
  let s ← get
  if s.octet 0 != 0x21 then
    scanFault (if directive then "while parsing a %TAG directive" else "while parsing a tag")
      start "did not find expected '!'"
  let mut handle := s.char
  advance
  need 1
  for _ in [0:(← get).rounds] do
    let s ← get
    if s.isWordAt 0 then
      handle := handle ++ s.char
      advance
      need 1
    else break
  let s ← get
  if s.octet 0 == 0x21 then
    handle := handle ++ s.char
    advance
  else if directive && !(handle.size == 1) then
    scanFault "while parsing a %TAG directive" start "did not find expected '!'"
  pure handle

/-- Reads one `%XX` escape of a tag and the escapes that complete its character. -/
def scanUriEscapes (directive : Bool) (start : Mark) : ScanM (Array UInt8) := do
  let context := if directive then "while parsing a %TAG directive" else "while parsing a tag"
  let mut out : Array UInt8 := #[]
  let mut left : Nat := 0
  for _ in [0:5] do
    need 3
    let s ← get
    match s.octet 0 == 0x25, hexDigit? (s.octet 1), hexDigit? (s.octet 2) with
    | true, some h, some l =>
      let o := (h * 16 + l).toUInt8
      if left == 0 then
        left := if o &&& 0x80 == 0 then 1 else if o &&& 0xE0 == 0xC0 then 2
          else if o &&& 0xF0 == 0xE0 then 3 else if o &&& 0xF8 == 0xF0 then 4 else 0
        if left == 0 then scanFault context start "found an incorrect leading UTF-8 octet"
      else if o &&& 0xC0 != 0x80 then
        scanFault context start "found an incorrect trailing UTF-8 octet"
      out := out.push o
      advance
      advance
      advance
      left := left - 1
      if left == 0 then break
    | _, _, _ => scanFault context start "did not find URI escaped octet"
  pure out

/-- Reads the characters of a tag after `head`. -/
def scanTagUri (verbatim directive : Bool) (head : Array UInt8) (start : Mark) :
    ScanM (Array UInt8) := do
  let mut text : Array UInt8 := if 1 < head.size then head.extract 1 head.size else #[]
  let mut found : Bool := 0 < head.size
  need 1
  for _ in [0:(← get).rounds] do
    let s ← get
    let b := s.octet 0
    let plainUri := s.isWordAt 0 || b == 0x3B || b == 0x2F || b == 0x3F || b == 0x3A ||
      b == 0x40 || b == 0x26 || b == 0x3D || b == 0x2B || b == 0x24 || b == 0x2E ||
      b == 0x21 || b == 0x7E || b == 0x2A || b == 0x27 || b == 0x28 || b == 0x29 ||
      (verbatim && (b == 0x2C || b == 0x5B || b == 0x5D))
    if b == 0x25 then
      text := text ++ (← scanUriEscapes directive start)
      found := true
    else if plainUri then
      text := text ++ s.char
      advance
      found := true
    else break
    need 1
  if !found then scanFault "while parsing a tag" start "did not find expected tag URI"
  pure text

/-- Reads a tag: `!<uri>`, `!handle!suffix`, `!suffix` or `!`. -/
def fetchTag : ScanM Unit := do
  saveKey
  modify fun s => { s with keyAllowed := false }
  let start := (← get).mark
  need 2
  let (handle, suffix) ← do
    if (← get).octet 1 == 0x3C then
      advance
      advance
      let suffix ← scanTagUri true false #[] start
      if (← get).octet 0 != 0x3E then
        scanFault "while scanning a tag" start "did not find the expected '>'"
      advance
      pure (#[], suffix)
    else
      let handle ← scanTagHandle false start
      if handle[0]? == some 0x21 && 1 < handle.size && handle.back? == some 0x21 then
        pure (handle, ← scanTagUri false false #[] start)
      else
        let suffix ← scanTagUri false false handle start
        if suffix.isEmpty then pure (#[], #[0x21]) else pure (#[0x21], suffix)
  need 1
  let s ← get
  if !s.isSpaced 0 && !(0 < s.flowLevel && s.octet 0 == 0x2C) then
    scanFault "while scanning a tag" start "did not find expected whitespace or line break"
  emit (.tag handle.toList suffix.toList) start s.mark

/-- Reads an anchor `&name` or an alias `*name`. -/
def fetchAnchor (isAlias : Bool) : ScanM Unit := do
  saveKey
  modify fun s => { s with keyAllowed := false }
  let start := (← get).mark
  advance
  need 1
  let mut name : Array UInt8 := #[]
  for _ in [0:(← get).rounds] do
    let s ← get
    if s.isWordAt 0 then
      name := name ++ s.char
      advance
      need 1
    else break
  let s ← get
  let b := s.octet 0
  if name.isEmpty || !(s.isSpaced 0 || b == 0x3F || b == 0x3A || b == 0x2C || b == 0x5D ||
      b == 0x7D || b == 0x25 || b == 0x40 || b == 0x60) then
    scanFault (if isAlias then "while scanning an alias" else "while scanning an anchor") start
      "did not find expected alphabetic or numeric character"
  emit (if isAlias then .alias name.toList else .anchor name.toList) start s.mark

/-- Reads a quoted scalar, single or double. -/
def fetchQuoted (single : Bool) : ScanM Unit := do
  saveKey
  modify fun s => { s with keyAllowed := false }
  let start := (← get).mark
  advance
  let mut text : Array UInt8 := #[]
  let mut leadingBreak : Array UInt8 := #[]
  let mut trailingBreaks : Array UInt8 := #[]
  let mut blanks : Array UInt8 := #[]
  for _ in [0:(← get).rounds] do
    need 4
    let s ← get
    if s.mark.column == 0 && (s.looksAt "---" || s.looksAt "...") && s.isSpaced 3 then
      scanFault "while scanning a quoted scalar" start "found unexpected document indicator"
    if s.isEnd 0 then
      scanFault "while scanning a quoted scalar" start "found unexpected end of stream"
    let mut leadingBlanks := false
    -- the characters up to a blank
    for _ in [0:s.rounds] do
      let s ← get
      if s.isSpaced 0 then break
      let b := s.octet 0
      if single && b == 0x27 && s.octet 1 == 0x27 then
        text := text.push 0x27
        advance
        advance
      else if single && b == 0x27 then break
      else if !single && b == 0x22 then break
      else if !single && b == 0x5C && s.isBreak 1 then
        need 3
        advance
        modify Scanner.skipLine
        leadingBlanks := true
        break
      else if !single && b == 0x5C then
        let e := s.octet 1
        let simple : Option (Array UInt8) :=
          if e == 0x30 then some #[0] else if e == 0x61 then some #[7]
          else if e == 0x62 then some #[8] else if e == 0x74 || e == 0x09 then some #[9]
          else if e == 0x6E then some #[10] else if e == 0x76 then some #[11]
          else if e == 0x66 then some #[12] else if e == 0x72 then some #[13]
          else if e == 0x65 then some #[0x1B] else if e == 0x20 then some #[0x20]
          else if e == 0x22 then some #[0x22] else if e == 0x27 then some #[0x27]
          else if e == 0x5C then some #[0x5C] else if e == 0x4E then some #[0xC2, 0x85]
          else if e == 0x5F then some #[0xC2, 0xA0] else if e == 0x4C then some #[0xE2, 0x80, 0xA8]
          else if e == 0x50 then some #[0xE2, 0x80, 0xA9] else none
        let codeLength : Nat := if e == 0x78 then 2 else if e == 0x75 then 4
          else if e == 0x55 then 8 else 0
        match simple with
        | some t => text := text ++ t
        | none =>
          if codeLength == 0 then
            scanFault "while parsing a quoted scalar" start "found unknown escape character"
        advance
        advance
        if 0 < codeLength then
          need codeLength
          let s ← get
          let mut value : Nat := 0
          for k in [0:codeLength] do
            match hexDigit? (s.octet k) with
            | some d => value := value * 16 + d
            | none =>
              scanFault "while parsing a quoted scalar" start
                "did not find expected hexdecimal number"
          if (0xD800 ≤ value && value ≤ 0xDFFF) || 0x10FFFF < value then
            scanFault "while parsing a quoted scalar" start
              "found invalid Unicode character escape code"
          text := text ++ (String.singleton (Char.ofNat value)).toUTF8.data
          for _ in [0:codeLength] do advance
      else
        text := text ++ s.char
        advance
      need 2
    need 1
    let s ← get
    if (single && s.octet 0 == 0x27) || (!single && s.octet 0 == 0x22) then break
    -- blanks and line breaks
    for _ in [0:s.rounds] do
      let s ← get
      if s.isBlank 0 then
        if !leadingBlanks then blanks := blanks ++ s.char
        advance
      else if s.isBreak 0 then
        need 2
        let s ← get
        if !leadingBlanks then
          blanks := #[]
          leadingBreak := s.breakText
          leadingBlanks := true
        else trailingBreaks := trailingBreaks ++ s.breakText
        modify Scanner.skipLine
      else break
      need 1
    if leadingBlanks then
      if leadingBreak[0]? == some 0x0A then
        if trailingBreaks.isEmpty then text := text.push 0x20 else text := text ++ trailingBreaks
      else text := text ++ leadingBreak ++ trailingBreaks
      trailingBreaks := #[]
      leadingBreak := #[]
    else
      text := text ++ blanks
      blanks := #[]
  advance
  emit (.scalar text.toList (if single then .singleQuoted else .doubleQuoted)) start (← get).mark

/-- Reads a plain scalar. It ends at `: `, at a comment, at a line less indented than the
block it is in, and in a flow collection at `,?[]{}`. -/
def fetchPlain : ScanM Unit := do
  saveKey
  modify fun s => { s with keyAllowed := false }
  let s0 ← get
  let indent : Int := s0.indent + 1
  let start := s0.mark
  let mut stop := s0.mark
  let mut text : Array UInt8 := #[]
  let mut leadingBreak : Array UInt8 := #[]
  let mut trailingBreaks : Array UInt8 := #[]
  let mut blanks : Array UInt8 := #[]
  let mut leadingBlanks := false
  for _ in [0:s0.rounds] do
    need 4
    let s ← get
    if s.mark.column == 0 && (s.looksAt "---" || s.looksAt "...") && s.isSpaced 3 then break
    if s.octet 0 == 0x23 then break
    for _ in [0:s.rounds] do
      let s ← get
      if s.isSpaced 0 then break
      let b := s.octet 0
      if (b == 0x3A && s.isSpaced 1) || (0 < s.flowLevel &&
          (b == 0x2C || b == 0x3F || b == 0x5B || b == 0x5D || b == 0x7B || b == 0x7D)) then
        break
      if leadingBlanks || 0 < blanks.size then
        if leadingBlanks then
          if leadingBreak[0]? == some 0x0A then
            if trailingBreaks.isEmpty then text := text.push 0x20
            else text := text ++ trailingBreaks
          else text := text ++ leadingBreak ++ trailingBreaks
          trailingBreaks := #[]
          leadingBreak := #[]
          leadingBlanks := false
        else
          text := text ++ blanks
          blanks := #[]
      text := text ++ s.char
      advance
      stop := (← get).mark
      need 2
    let s ← get
    if !(s.isBlank 0 || s.isBreak 0) then break
    need 1
    for _ in [0:s.rounds] do
      let s ← get
      if s.isBlank 0 then
        if leadingBlanks && (s.mark.column : Int) < indent && s.octet 0 == 0x09 then
          scanFault "while scanning a plain scalar" start
            "found a tab character that violates indentation"
        if !leadingBlanks then blanks := blanks ++ s.char
        advance
      else if s.isBreak 0 then
        need 2
        let s ← get
        if !leadingBlanks then
          blanks := #[]
          leadingBreak := s.breakText
          leadingBlanks := true
        else trailingBreaks := trailingBreaks ++ s.breakText
        modify Scanner.skipLine
      else break
      need 1
    let s ← get
    if s.flowLevel == 0 && (s.mark.column : Int) < indent then break
  emit (.scalar text.toList .plain) start stop
  if leadingBlanks then modify fun s => { s with keyAllowed := true }

/-- Moves over the indentation and empty lines before a line of a block scalar, collecting
the breaks; fixes the indentation when it is not known yet. -/
def blockBreaks (indent : Nat) (start : Mark) : ScanM (Nat × Array UInt8 × Mark) := do
  let mut breaks : Array UInt8 := #[]
  let mut stop := (← get).mark
  let mut deepest : Nat := 0
  for _ in [0:(← get).rounds] do
    advanceWhile fun s => (indent == 0 || s.mark.column < indent) && s.octet 0 == 0x20
    let s ← get
    if deepest < s.mark.column then deepest := s.mark.column
    if (indent == 0 || s.mark.column < indent) && s.octet 0 == 0x09 then
      scanFault "while scanning a block scalar" start
        "found a tab character where an indentation space is expected"
    if !s.isBreak 0 then break
    need 2
    breaks := breaks ++ (← get).breakText
    modify Scanner.skipLine
    stop := (← get).mark
  let s ← get
  let indent :=
    if indent == 0 then max (max deepest (s.indent + 1).toNat) 1 else indent
  pure (indent, breaks, stop)

/-- Reads a literal (`|`) or folded (`>`) block scalar. -/
def fetchBlockScalar (literal : Bool) : ScanM Unit := do
  removeKey
  modify fun s => { s with keyAllowed := true }
  let start := (← get).mark
  advance
  need 1
  let mut chomping : Int := 0
  let mut increment : Nat := 0
  let s ← get
  if s.octet 0 == 0x2B || s.octet 0 == 0x2D then
    chomping := if s.octet 0 == 0x2B then 1 else -1
    advance
    need 1
    let s ← get
    if s.isDigitAt 0 then
      if s.octet 0 == 0x30 then
        scanFault "while scanning a block scalar" start "found an indentation indicator equal to 0"
      increment := (s.octet 0 - 0x30).toNat
      advance
  else if s.isDigitAt 0 then
    if s.octet 0 == 0x30 then
      scanFault "while scanning a block scalar" start "found an indentation indicator equal to 0"
    increment := (s.octet 0 - 0x30).toNat
    advance
    need 1
    let s ← get
    if s.octet 0 == 0x2B || s.octet 0 == 0x2D then
      chomping := if s.octet 0 == 0x2B then 1 else -1
      advance
  advanceWhile fun s => s.isBlank 0
  if (← get).octet 0 == 0x23 then
    lineComment
    advanceWhile fun s => !s.isBreakOrEnd 0
  if !(← get).isBreakOrEnd 0 then
    scanFault "while scanning a block scalar" start "did not find expected comment or line break"
  if (← get).isBreak 0 then
    need 2
    modify Scanner.skipLine
  let s ← get
  let mut indent : Nat :=
    if 0 < increment then (if 0 ≤ s.indent then (s.indent + increment).toNat else increment)
    else 0
  let (i, firstBreaks, stop0) ← blockBreaks indent start
  indent := i
  let mut stop := stop0
  let mut trailingBreaks := firstBreaks
  let mut text : Array UInt8 := #[]
  let mut leadingBreak : Array UInt8 := #[]
  let mut leadingBlank := false
  need 1
  for _ in [0:(← get).rounds] do
    let s ← get
    if !(s.mark.column == indent && !s.isEnd 0) then break
    let trailingBlank := s.isBlank 0
    if !literal && !leadingBlank && !trailingBlank && leadingBreak[0]? == some 0x0A then
      if trailingBreaks.isEmpty then text := text.push 0x20
    else text := text ++ leadingBreak
    leadingBreak := #[]
    text := text ++ trailingBreaks
    trailingBreaks := #[]
    leadingBlank := s.isBlank 0
    for _ in [0:s.rounds] do
      let s ← get
      if s.isBreakOrEnd 0 then break
      text := text ++ s.char
      advance
      need 1
    need 2
    let s ← get
    if s.isBreak 0 then
      leadingBreak := s.breakText
      modify Scanner.skipLine
    let (i, breaks, st) ← blockBreaks indent start
    indent := i
    trailingBreaks := breaks
    stop := st
  if chomping != -1 then text := text ++ leadingBreak
  if chomping == 1 then text := text ++ trailingBreaks
  emit (.scalar text.toList (if literal then .literal else .folded)) start stop

/-- Reads a directive line: `%YAML major.minor` or `%TAG handle prefix`. -/
def fetchDirective : ScanM Unit := do
  unrollIndent (-1) (← get).mark
  removeKey
  modify fun s => { s with keyAllowed := false }
  let start := (← get).mark
  advance
  need 1
  let mut name : Array UInt8 := #[]
  for _ in [0:(← get).rounds] do
    let s ← get
    if s.isWordAt 0 then
      name := name ++ s.char
      advance
      need 1
    else break
  if name.isEmpty then
    scanFault "while scanning a directive" start "could not find expected directive name"
  if !(← get).isSpaced 0 then
    scanFault "while scanning a directive" start "found unexpected non-alphabetical character"
  if name == "YAML".toUTF8.data then
    advanceWhile fun s => s.isBlank 0
    let mut numbers : Array Nat := #[]
    for k in [0:2] do
      let mut length := 0
      let mut value := 0
      need 1
      for _ in [0:(← get).rounds] do
        if (← get).isDigitAt 0 then
          length := length + 1
          if 2 < length then
            scanFault "while scanning a %YAML directive" start "found extremely long version number"
          value := value * 10 + ((← get).octet 0 - 0x30).toNat
          advance
          need 1
        else break
      if length == 0 then
        scanFault "while scanning a %YAML directive" start
          "did not find expected version number"
      numbers := numbers.push value
      if k == 0 then
        if (← get).octet 0 != 0x2E then
          scanFault "while scanning a %YAML directive" start
            "did not find expected digit or '.' character"
        advance
    let s ← get
    emit (.versionDirective (numbers.getD 0 0) (numbers.getD 1 0)) start s.mark
  else if name == "TAG".toUTF8.data then
    advanceWhile fun s => s.isBlank 0
    let handle ← scanTagHandle true start
    need 1
    if !(← get).isBlank 0 then
      scanFault "while scanning a %TAG directive" start "did not find expected whitespace"
    advanceWhile fun s => s.isBlank 0
    let pfx ← scanTagUri true true #[] start
    need 1
    if !(← get).isSpaced 0 then
      scanFault "while scanning a %TAG directive" start
        "did not find expected whitespace or line break"
    let s ← get
    emit (.tagDirective handle.toList pfx.toList) start s.mark
  else
    scanFault "while scanning a directive" start "found unknown directive name"
  advanceWhile fun s => s.isBlank 0
  if (← get).octet 0 == 0x23 then advanceWhile fun s => !s.isBreakOrEnd 0
  if !(← get).isBreakOrEnd 0 then
    scanFault "while scanning a directive" start "did not find expected comment or line break"
  if (← get).isBreak 0 then
    need 2
    modify Scanner.skipLine

/-- Reads `---` or `...`. -/
def fetchDocumentIndicator (kind : TokenKind) : ScanM Unit := do
  unrollIndent (-1) (← get).mark
  removeKey
  modify fun s => { s with keyAllowed := false }
  let start := (← get).mark
  advance
  advance
  advance
  emit kind start (← get).mark

/-- Reads `[` or `{`. -/
def fetchFlowStart (kind : TokenKind) : ScanM Unit := do
  saveKey
  enterFlow
  modify fun s => { s with keyAllowed := true }
  let start := (← get).mark
  advance
  emit kind start (← get).mark

/-- Reads `]` or `}`. -/
def fetchFlowEnd (kind : TokenKind) : ScanM Unit := do
  removeKey
  leaveFlow
  modify fun s => { s with keyAllowed := false }
  let start := (← get).mark
  advance
  emit kind start (← get).mark

/-- Reads `,`. -/
def fetchFlowEntry : ScanM Unit := do
  removeKey
  modify fun s => { s with keyAllowed := true }
  let start := (← get).mark
  advance
  emit .flowEntry start (← get).mark

/-- Reads `-` as a block sequence entry. -/
def fetchBlockEntry : ScanM Unit := do
  let s ← get
  if s.flowLevel == 0 then
    if !s.keyAllowed then
      scanFault "" s.mark "block sequence entries are not allowed in this context"
    rollIndent s.mark.column none .blockSequenceStart s.mark
  removeKey
  modify fun s => { s with keyAllowed := true }
  let start := (← get).mark
  advance
  emit .blockEntry start (← get).mark

/-- Reads `?`. -/
def fetchKey : ScanM Unit := do
  let s ← get
  if s.flowLevel == 0 then
    if !s.keyAllowed then
      scanFault "" s.mark "mapping keys are not allowed in this context"
    rollIndent s.mark.column none .blockMappingStart s.mark
  removeKey
  modify fun s => { s with keyAllowed := s.flowLevel == 0 }
  let start := (← get).mark
  advance
  emit .key start (← get).mark

/-- Reads `:`. When a simple key stands before it, its `key` token is inserted where it
started, opening a block mapping there if needed. -/
def fetchValue : ScanM Unit := do
  if ← keyStands then
    let s ← get
    match s.keys with
    | k :: rest =>
      insertToken k.tokenNumber { kind := .key, start := k.mark, stop := k.mark }
      rollIndent k.mark.column (some k.tokenNumber) .blockMappingStart k.mark
      modify fun s => { s with keys := { k with possible := false } :: rest, keyAllowed := false }
    | [] => pure ()
  else
    let s ← get
    if s.flowLevel == 0 then
      if !s.keyAllowed then
        scanFault "" s.mark "mapping values are not allowed in this context"
      rollIndent s.mark.column none .blockMappingStart s.mark
    modify fun s => { s with keyAllowed := s.flowLevel == 0 }
  let start := (← get).mark
  advance
  emit .value start (← get).mark

/-- Makes the token that starts at the position, other than the stream end, a directive or a
document indicator. -/
def fetchToken : ScanM Unit := do
  let s ← get
  let b := s.octet 0
  if b == 0x5B then fetchFlowStart .flowSequenceStart
  else if b == 0x7B then fetchFlowStart .flowMappingStart
  else if b == 0x5D then fetchFlowEnd .flowSequenceEnd
  else if b == 0x7D then fetchFlowEnd .flowMappingEnd
  else if b == 0x2C then fetchFlowEntry
  else if b == 0x2D && s.isSpaced 1 then fetchBlockEntry
  else if b == 0x3F && (0 < s.flowLevel || s.isSpaced 1) then fetchKey
  else if b == 0x3A && (0 < s.flowLevel || s.isSpaced 1) then fetchValue
  else if b == 0x2A then fetchAnchor true
  else if b == 0x26 then fetchAnchor false
  else if b == 0x21 then fetchTag
  else if b == 0x7C && s.flowLevel == 0 then fetchBlockScalar true
  else if b == 0x3E && s.flowLevel == 0 then fetchBlockScalar false
  else if b == 0x27 then fetchQuoted true
  else if b == 0x22 then fetchQuoted false
  else if !(s.isSpaced 0 || b == 0x2D || b == 0x3F || b == 0x3A || b == 0x2C || b == 0x5B ||
      b == 0x5D || b == 0x7B || b == 0x7D || b == 0x23 || b == 0x26 || b == 0x2A ||
      b == 0x21 || b == 0x7C || b == 0x3E || b == 0x27 || b == 0x22 || b == 0x25 ||
      b == 0x40 || b == 0x60) ||
      (b == 0x2D && !s.isBlank 1) ||
      (s.flowLevel == 0 && (b == 0x3F || b == 0x3A) && !s.isSpaced 1) then
    fetchPlain
  else
    scanFault "while scanning for the next token" s.mark
      "found character that cannot start any token"

/-- Makes the next tokens. -/
def fetchNext : ScanM Unit := do
  modify fun s => { s with fetchTokens := s.tokens.size, fetchMark := s.mark }
  need 1
  if !(← get).started then fetchStreamStart
  else
    let scanMark := (← get).mark
    skipToToken
    unrollIndent (← get).mark.column scanMark
    need 4
    let s ← get
    let b := s.octet 0
    if s.isEnd 0 then fetchStreamEnd
    else if s.mark.column == 0 && b == 0x25 then fetchDirective
    else if s.mark.column == 0 && s.looksAt "---" && s.isSpaced 3 then
      fetchDocumentIndicator .documentStart
    else if s.mark.column == 0 && s.looksAt "..." && s.isSpaced 3 then
      fetchDocumentIndicator .documentEnd
    else
      fetchToken
      -- a `-` alone on its line leaves the comment after it to what follows
      if (← get).tokens.back?.map (·.kind) != some .blockEntry then lineComment

end Steps

/-- The tokens of a text, and the fault that stopped the scanner, if one did, with the
number of tokens a parser takes before it meets it; and the fault of the stream that a look
ahead met first, with the number of tokens a parser takes before the look ahead is made. -/
structure Scan where
  tokens : Array Token
  fault : Option (Fault × Nat)
  late : Option (Fault × Nat) := none

/-- Scans a whole stream. -/
def scan (raw : Array UInt8) : Scan :=
  let d := Input.decode raw
  let run : ScanM Unit := do
    for _ in [0:d.text.size + 8] do
      if (← get).finished then break
      fetchNext
  let start : Scanner :=
    { input := d.text, pieces := d.pieces, readFault := d.fault, endsEarly := d.endsEarly }
  let (r, s) := (run.run).run start
  match r with
  | .ok () => { tokens := s.tokens, fault := none, late := s.late }
  | .error f => { tokens := s.tokens, fault := some (f, s.reach), late := s.late }

end ExactJson.Yaml
