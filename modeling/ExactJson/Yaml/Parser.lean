import ExactJson.Yaml.Scanner
import ExactJson.Yaml.Resolve

/-!
# Parsing YAML into nodes

The parser reads the tokens of a stream into documents, each a tree of nodes:

* a node may carry an anchor `&name` and a tag `!tag`, in either order; an alias `*name`
  stands for the node last anchored with that name, in this document or an earlier one. An
  anchor is in force from where it is written, so an alias inside the node it anchors stands
  for that very node: anchored nodes are kept in a table by number, and an alias holds the
  number of its node rather than the node, so documents stay finite trees;
* a block mapping is a run of `key` tokens each with an optional `value`, closed by a
  `blockEnd`; a block sequence is a run of `blockEntry` tokens; a sequence whose entries sit at
  the indentation of the mapping key they belong to has no start or end token of its own;
* flow collections are separated by `,`; an entry of a flow sequence written `k: v` is a
  mapping of one pair; in an entry written `? k: v`, a `:`, `,` or `]` right after the `?` is
  taken as part of an empty key, so that what follows it must be a `,` or `]`;
* a missing key, value or entry is an empty plain scalar;
* a document starts implicitly at the first content of the stream, or after `---`; it ends
  where the next one starts, at `...`, or at the end of the stream; `%YAML` and `%TAG`
  directives come before a `---`.

A node's line is counted from one. A scalar's tag is its explicit tag in short form, or
`!!str` for a quoted or block scalar, or the tag it resolves to.

Every step takes at least one token, apart from the empty scalars, which are followed by a
step that does, and a level of nesting costs two steps of fuel (the node and its collection)
for at least one token; the parser runs on fuel of twice the number of tokens.

The parser gives the stream as a run of events: the start and end of the stream, of each
document and of each collection, a scalar, an alias. Each event is made by looking at and
taking tokens, and `eventDone` marks where one is complete. A fault of the scanner is met when
the parser looks at a token the scanner could not make. A fault of the stream that the scanner
met in a look ahead (`Scan.late`) is met once the parser has looked at the token whose making
met it, and only when the event being made is complete: a fault of the scanner or of the parser
met while making that event comes first.
-/

namespace ExactJson.Yaml

/-- A node of a YAML document. -/
inductive Node where
  /-- A scalar: its text, tag and line. -/
  | scalar (text tag : Bytes) (line : Nat)
  /-- A mapping: its tag, its pairs in order, and its line. -/
  | mapping (tag : Bytes) (pairs : List (Node × Node)) (line : Nat)
  /-- A sequence: its tag, its items, and its line. -/
  | sequence (tag : Bytes) (items : List Node) (line : Nat)
  /-- An alias: the anchor's name, the number of the node it stands for, a number that no other
  alias of the stream has, and its line. -/
  | alias (name : Bytes) (anchor serial : Nat) (line : Nat)
  deriving Inhabited, Repr

namespace Node

/-- The line of a node. -/
def line : Node → Nat
  | .scalar _ _ l | .mapping _ _ l | .sequence _ _ l | .alias _ _ _ l => l

/-- The tag of a node; an alias has none. -/
def tag : Node → Bytes
  | .scalar _ t _ | .mapping t _ _ | .sequence t _ _ => t
  | .alias .. => []

/-- The text of a node: a scalar's text or an alias's name. -/
def text : Node → Bytes
  | .scalar s _ _ => s
  | .alias n _ _ _ => n
  | _ => []

/-- The kind of a node, as a number. -/
def kindIndex : Node → Nat
  | .scalar .. => 0
  | .mapping .. => 1
  | .sequence .. => 2
  | .alias .. => 3

end Node

/-- A parsed document: its root node, and the anchored nodes of the stream up to its end, by
number, which its aliases stand for. -/
structure Document where
  root : Node
  anchored : Array Node := #[]

/-- The state of the parser. -/
structure Parser where
  scan : Scan
  /-- The number of tokens taken. -/
  pos : Nat := 0
  /-- The stream start has been taken. -/
  started : Bool := false
  /-- The next document may start without `---`. -/
  implicitStart : Bool := true
  /-- The tag handles of the current document and their prefixes. -/
  handles : List (Bytes × Bytes) := []
  /-- The anchor names in force, the latest first, each with the number of its node. -/
  anchors : List (Bytes × Nat) := []
  /-- The anchored nodes of the stream, by number. -/
  anchored : Array Node := #[]
  /-- The parser has looked at the token whose making met the scanner's late fault. -/
  armed : Bool := false

/-- The parser's steps. -/
abbrev ParseM := StateT Parser (Except Fault)

/-- A fault of the parser. -/
def parseFault {α : Type} (problem : String) (problemMark : Mark) (context : String := "")
    (contextMark : Mark := {}) : ParseM α :=
  throw { layer := .parsing, problem, problemMark, context, contextMark }

/-- The next token, or the scanner's fault when the parser would have met it. -/
def peekToken : ParseM Token := do
  let p ← get
  if let some (f, n) := p.scan.fault then
    if n ≤ p.pos then throw f
  if let some (_, n) := p.scan.late then
    if n ≤ p.pos then set { p with armed := true }
  match p.scan.tokens[p.pos]? with
  | some t => pure t
  | none => parseFault "did not find expected <stream-end>" {}

/-- Takes the next token. -/
def skipToken : ParseM Unit := modify fun p => { p with pos := p.pos + 1 }

/-- Completes an event: the late fault of the scanner is met here, once armed. -/
def eventDone : ParseM Unit := do
  let p ← get
  if p.armed then
    if let some (f, _) := p.scan.late then throw f

/-- The token is one of those that end or separate nodes in a block. -/
def TokenKind.isBlockStop : TokenKind → Bool
  | .key | .value | .blockEnd => true
  | _ => false

/-- The tag of a scalar without an explicit tag. -/
def scalarTag (text : Bytes) (style : ScalarStyle) : Bytes :=
  if style != .plain then Tag.str
  else if text == Bytes.ofString "<<" then Tag.merge
  else (resolveLook [] text).1

/-- An empty plain scalar at a mark. -/
def emptyScalar (mark : Mark) : Node := .scalar [] Tag.null (mark.line + 1)

/-- The event of an empty plain scalar at a mark. -/
def emptyEvent (mark : Mark) : ParseM Node := do
  eventDone
  pure (emptyScalar mark)

/-- Puts an anchor in force for the node about to be parsed: the number of the node. -/
def openAnchor (anchor : Option Bytes) : ParseM (Option Nat) := do
  match anchor with
  | none => pure none
  | some a =>
    let p ← get
    let id := p.anchored.size
    set { p with anchors := (a, id) :: p.anchors, anchored := p.anchored.push default }
    pure (some id)

/-- Records an anchored node under its number, once it is parsed. -/
def anchorNode (slot : Option Nat) (n : Node) : ParseM Node := do
  if let some id := slot then modify fun p => { p with anchored := p.anchored.setIfInBounds id n }
  pure n

/-- The tag given to a node: the explicit one in short form, unless it is `!`. -/
def explicitTag (tag : Option Bytes) : Option Bytes :=
  match tag with
  | some t => if t.isEmpty || t == [0x21] then none else some (Tag.short t)
  | none => none

mutual

/-- Parses a node. `block` allows block collections; `indentless` allows a sequence without
indentation. -/
def parseNode (block indentless : Bool) : Nat → ParseM Node
  | 0 => parseFault "document is too deep" {}
  | fuel + 1 => do
    let t ← peekToken
    match t.kind with
    | .alias name =>
      let serial := (← get).pos
      skipToken
      eventDone
      match (← get).anchors.lookup name with
      | some id => pure (.alias name id serial (t.start.line + 1))
      | none =>
        throw { layer := .parsing,
                problem := "unknown anchor '" ++ String.ofList (name.map (Char.ofNat ·.toNat)) ++
                  "' referenced" }
    | _ =>
      let start := t.start
      let mut anchor : Option Bytes := none
      let mut tagParts : Option (Bytes × Bytes) := none
      let mut tagMark := t.start
      let mut t := t
      for _ in [0:2] do
        match t.kind with
        | .anchor name =>
          if anchor.isSome then break
          anchor := some name
          skipToken
          t ← peekToken
        | .tag handle suffix =>
          if tagParts.isSome then break
          tagParts := some (handle, suffix)
          tagMark := t.start
          skipToken
          t ← peekToken
        | _ => break
      let tag ← match tagParts with
        | none => pure none
        | some (handle, suffix) =>
          if handle.isEmpty then pure (some suffix)
          else match (← get).handles.lookup handle with
            | some pfx => pure (some (pfx ++ suffix))
            | none =>
              parseFault "found undefined tag handle" tagMark "while parsing a node" start
      let given := explicitTag tag
      let line := start.line + 1
      let slot ← openAnchor anchor
      if indentless && t.kind == .blockEntry then
        eventDone
        let items ← parseIndentless fuel
        anchorNode slot (.sequence (given.getD Tag.seq) items line)
      else match t.kind with
        | .scalar text style =>
          skipToken
          eventDone
          anchorNode slot (.scalar text (given.getD (scalarTag text style)) line)
        | .flowSequenceStart =>
          eventDone
          let items ← parseFlowSequence fuel
          anchorNode slot (.sequence (given.getD Tag.seq) items line)
        | .flowMappingStart =>
          eventDone
          let pairs ← parseFlowMapping fuel
          anchorNode slot (.mapping (given.getD Tag.map) pairs line)
        | .blockSequenceStart =>
          if block then
            eventDone
            let items ← parseBlockSequence fuel
            anchorNode slot (.sequence (given.getD Tag.seq) items line)
          else if anchor.isSome || tagParts.isSome then
            eventDone
            anchorNode slot (.scalar [] (given.getD Tag.null) line)
          else
            parseFault "did not find expected node content" t.start "while parsing a flow node"
              start
        | .blockMappingStart =>
          if block then
            eventDone
            let pairs ← parseBlockMapping fuel
            anchorNode slot (.mapping (given.getD Tag.map) pairs line)
          else if anchor.isSome || tagParts.isSome then
            eventDone
            anchorNode slot (.scalar [] (given.getD Tag.null) line)
          else
            parseFault "did not find expected node content" t.start "while parsing a flow node"
              start
        | _ =>
          if anchor.isSome || tagParts.isSome then
            eventDone
            anchorNode slot (.scalar [] (given.getD Tag.null) line)
          else
            parseFault "did not find expected node content" t.start
              (if block then "while parsing a block node" else "while parsing a flow node") start
termination_by structural fuel => fuel

/-- Parses a block sequence from its start token to its end. -/
def parseBlockSequence : Nat → ParseM (List Node)
  | 0 => parseFault "document is too deep" {}
  | fuel + 1 => do
    let first ← peekToken
    skipToken
    let mut items : Array Node := #[]
    for _ in [0:fuel] do
      let t ← peekToken
      match t.kind with
      | .blockEntry =>
        skipToken
        let u ← peekToken
        if u.kind == .blockEntry || u.kind == .blockEnd then items := items.push (← emptyEvent t.stop)
        else items := items.push (← parseNode true false fuel)
      | .blockEnd =>
        skipToken
        eventDone
        return items.toList
      | _ =>
        parseFault "did not find expected '-' indicator" t.start
          "while parsing a block collection" first.start
    parseFault "document is too deep" {}
termination_by structural fuel => fuel

/-- Parses a sequence of entries at the indentation of the key they belong to. -/
def parseIndentless : Nat → ParseM (List Node)
  | 0 => parseFault "document is too deep" {}
  | fuel + 1 => do
    let mut items : Array Node := #[]
    for _ in [0:fuel] do
      let t ← peekToken
      match t.kind with
      | .blockEntry =>
        skipToken
        let u ← peekToken
        if u.kind == .blockEntry || u.kind.isBlockStop then items := items.push (← emptyEvent t.stop)
        else items := items.push (← parseNode true false fuel)
      | _ =>
        eventDone
        return items.toList
    parseFault "document is too deep" {}
termination_by structural fuel => fuel

/-- Parses a block mapping from its start token to its end. -/
def parseBlockMapping : Nat → ParseM (List (Node × Node))
  | 0 => parseFault "document is too deep" {}
  | fuel + 1 => do
    let first ← peekToken
    skipToken
    let mut pairs : Array (Node × Node) := #[]
    for _ in [0:fuel] do
      let t ← peekToken
      match t.kind with
      | .key =>
        skipToken
        let u ← peekToken
        let key ← if u.kind.isBlockStop then emptyEvent t.stop
          else parseNode true true fuel
        let v ← peekToken
        let value ← if v.kind == .value then do
            skipToken
            let w ← peekToken
            if w.kind.isBlockStop then emptyEvent v.stop else parseNode true true fuel
          else emptyEvent v.start
        pairs := pairs.push (key, value)
      | .blockEnd =>
        skipToken
        eventDone
        return pairs.toList
      | _ =>
        parseFault "did not find expected key" t.start "while parsing a block mapping" first.start
    parseFault "document is too deep" {}
termination_by structural fuel => fuel

/-- Parses a flow sequence from `[` to `]`. -/
def parseFlowSequence : Nat → ParseM (List Node)
  | 0 => parseFault "document is too deep" {}
  | fuel + 1 => do
    let first ← peekToken
    skipToken
    let mut items : Array Node := #[]
    let mut isFirst := true
    for _ in [0:fuel] do
      let mut t ← peekToken
      if t.kind != .flowSequenceEnd then
        if !isFirst then
          if t.kind == .flowEntry then
            skipToken
            t ← peekToken
          else
            parseFault "did not find expected ',' or ']'" t.start
              "while parsing a flow sequence" first.start
        isFirst := false
        if t.kind == .key then
          -- an entry `k: v` is a mapping of one pair
          skipToken
          eventDone
          let u ← peekToken
          -- a `:`, `,` or `]` right after the key indicator is taken with the empty key
          let key ← if u.kind == .value || u.kind == .flowEntry || u.kind == .flowSequenceEnd then do
              skipToken
              emptyEvent u.stop
            else parseNode false false fuel
          let v ← peekToken
          let value ← if v.kind == .value then do
              skipToken
              let w ← peekToken
              if w.kind == .flowEntry || w.kind == .flowSequenceEnd then emptyEvent v.start
              else parseNode false false fuel
            else emptyEvent v.start
          -- the end of the pair's mapping is an event of its own
          let _ ← peekToken
          eventDone
          items := items.push (.mapping Tag.map [(key, value)] (t.start.line + 1))
          continue
        else if t.kind != .flowSequenceEnd then
          items := items.push (← parseNode false false fuel)
          continue
      skipToken
      eventDone
      return items.toList
    parseFault "document is too deep" {}
termination_by structural fuel => fuel

/-- Parses a flow mapping from `{` to `}`. -/
def parseFlowMapping : Nat → ParseM (List (Node × Node))
  | 0 => parseFault "document is too deep" {}
  | fuel + 1 => do
    let first ← peekToken
    skipToken
    let mut pairs : Array (Node × Node) := #[]
    let mut isFirst := true
    for _ in [0:fuel] do
      let mut t ← peekToken
      if t.kind != .flowMappingEnd then
        if !isFirst then
          if t.kind == .flowEntry then
            skipToken
            t ← peekToken
          else
            parseFault "did not find expected ',' or '\x7d'" t.start
              "while parsing a flow mapping" first.start
        isFirst := false
        if t.kind == .key then
          skipToken
          let u ← peekToken
          let key ← if u.kind == .value || u.kind == .flowEntry || u.kind == .flowMappingEnd then
              emptyEvent u.start
            else parseNode false false fuel
          let v ← peekToken
          let value ← if v.kind == .value then do
              skipToken
              let w ← peekToken
              if w.kind == .flowEntry || w.kind == .flowMappingEnd then emptyEvent w.start
              else parseNode false false fuel
            else emptyEvent v.start
          pairs := pairs.push (key, value)
          continue
        else if t.kind != .flowMappingEnd then
          let key ← parseNode false false fuel
          let v ← peekToken
          pairs := pairs.push (key, ← emptyEvent v.start)
          continue
      skipToken
      eventDone
      return pairs.toList
    parseFault "document is too deep" {}
termination_by structural fuel => fuel

end

/-- The standard tag handles. -/
def standardHandles : List (Bytes × Bytes) :=
  [([0x21], [0x21]), ([0x21, 0x21], Tag.standardPrefix)]

/-- Takes the directives before a document. -/
def takeDirectives (fuel : Nat) : ParseM Unit := do
  let mut version := false
  let mut handles : List (Bytes × Bytes) := []
  for _ in [0:fuel] do
    let t ← peekToken
    match t.kind with
    | .versionDirective major minor =>
      if version then parseFault "found duplicate %YAML directive" t.start
      if major != 1 || minor != 1 then parseFault "found incompatible YAML document" t.start
      version := true
      skipToken
    | .tagDirective handle pfx =>
      if (handles.lookup handle).isSome then parseFault "found duplicate %TAG directive" t.start
      handles := handles ++ [(handle, pfx)]
      skipToken
    | _ => break
  let extra := standardHandles.filter fun h => (handles.lookup h.1).isNone
  modify fun p => { p with handles := handles ++ extra }

/-- Takes the end of a document: an optional `...`. -/
def takeDocumentEnd : ParseM Unit := do
  let t ← peekToken
  if t.kind == .documentEnd then skipToken
  modify fun p => { p with handles := [], implicitStart := false }
  eventDone

/-- The token starts a document explicitly or ends the stream. -/
def TokenKind.opensDocument : TokenKind → Bool
  | .versionDirective .. | .tagDirective .. | .documentStart | .streamEnd => true
  | _ => false

/-- Parses the next document of the stream, or none at the end of the stream. -/
def nextDocument : ParseM (Option Document) := do
  let fuel := 2 * (← get).scan.tokens.size + 4
  if !(← get).started then
    let t ← peekToken
    if t.kind != .streamStart then parseFault "did not find expected <stream-start>" t.start
    skipToken
    modify fun p => { p with started := true, implicitStart := true }
    eventDone
  let mut t ← peekToken
  if (← get).implicitStart && !t.kind.opensDocument then
    takeDirectives fuel
    modify fun p => { p with implicitStart := false }
    eventDone
    let root ← parseNode true false fuel
    takeDocumentEnd
    return some { root, anchored := (← get).anchored }
  if !(← get).implicitStart then
    for _ in [0:fuel] do
      if t.kind == .documentEnd then
        skipToken
        t ← peekToken
      else break
  if t.kind == .streamEnd then
    eventDone
    return none
  takeDirectives fuel
  let opening ← peekToken
  if opening.kind != .documentStart then
    parseFault "did not find expected <document start>" opening.start
  skipToken
  modify fun p => { p with implicitStart := false }
  eventDone
  let u ← peekToken
  let root ← match u.kind with
    | .versionDirective .. | .tagDirective .. | .documentStart | .documentEnd | .streamEnd =>
      emptyEvent u.start
    | _ => parseNode true false fuel
  takeDocumentEnd
  return some { root, anchored := (← get).anchored }

end ExactJson.Yaml
