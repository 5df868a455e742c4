import ExactJson.Yaml.Parser
import ExactJson.Yaml.Untyped
import ExactJson.Text.Quoted
import ExactJson.Text.Base64

/-!
# Decoding YAML nodes into records

A document is decoded against a *shape*: an integer, a boolean, a string, or a record of
named fields. Decoding starts from a value of that shape and changes only what the document
sets, so left-out fields keep their values:

* a null scalar changes nothing;
* a string field takes the text of any scalar;
* an integer field takes an integer within 64 signed bits, or a float up to `2 ^ 63`, cut
  toward zero;
* a boolean field takes a boolean, or one of the words `y`, `yes`, `on`, `n`, `no`, `off` in
  their spellings;
* a record takes a mapping whose keys name its fields; a key that names no field, a key given
  twice, or two keys naming the same field, is an error;
* a merge key `<<` brings in the fields of another mapping, or of a sequence of mappings, that
  the mapping itself does not set;
* a `!!binary` scalar is base64 text and stands for the octets it decodes to.

Where no shape is asked for, as for a key read to learn what a merge may not override, a node
becomes an `Untyped` value: a map, a sequence or the value its scalar resolves to. A map key
that is a sequence or a map is a fault.

An alias is decoded as the node it stands for; an alias met again while the node it stands for
is being decoded makes that node contain itself, which has no value. Since every alias of a
chain is met at most once, a chain is no longer than the aliases of the stream, which bounds
the steps of decoding. Every node decoded is counted, and so is every node decoded inside an
alias: past a thousand nodes and a hundred of them inside aliases, nodes from aliases may make
up at most 99 in 100 of them (fewer from 400000 nodes on, down to 1 in 10 at 4000000), or
the document holds excessive aliasing and decoding stops.

A value that does not fit its field is an error too. Errors are collected, each with the line
it is on, and decoding goes on past them; a tag that does not fit its text, base64 text that
does not decode, a bad map key, excessive aliasing and a node that contains itself stop it.

## Merges and their sets of keys

A merge keeps a set of the keys already set, so that a merged mapping does not override them.
A merge with no set under way starts one, and first puts into it every key of the mapping that
holds the merge key, each read as a value of no given type. The set is then the set *under
way*; a mapping being decoded takes it over for its own keys, and leaves none under way for
the nodes inside it. So while the keys of the holding mapping are read, a key that is itself a
mapping, or a mapping inside a sequence key, puts its keys into the same set, and passes over
those already there.

Sequences and maps have no hash: looking one up in the set is a crash of the decoder
(`Stop.crash`), in one wording when the set is still empty and in another when it is not, and
so is putting one into it.
-/

namespace ExactJson.Yaml

/-- What a node is decoded into. -/
inductive Shape where
  | int
  | bool
  | text
  /-- A record: the name of its type and its fields. -/
  | record (typeName : String) (fields : List (String × Shape))

/-- The name of a shape's type, as errors show it. -/
def Shape.typeName : Shape → String
  | .int => "int"
  | .bool => "bool"
  | .text => "string"
  | .record n _ => n

/-- A decoded value. -/
inductive Field where
  | int (n : Int)
  | bool (b : Bool)
  | text (s : Bytes)
  | record (fields : List (String × Field))
  deriving Repr, Inhabited

/-- Why decoding stopped before its end. -/
inductive Stop where
  /-- A fault of the document, with its text. -/
  | fault (text : Bytes)
  /-- A crash of the decoder itself, with the runtime's text. -/
  | crash (text : String)
  deriving Repr

/-- What decoding keeps as it goes. -/
structure Decoder where
  /-- The errors met so far. -/
  errors : Array Bytes := #[]
  /-- The nodes decoded so far. -/
  decoded : Nat := 0
  /-- The nodes decoded so far inside an alias. -/
  aliased : Nat := 0
  /-- The sets of keys of the merges under way, innermost last. -/
  keySets : Array (List Untyped) := #[]
  /-- The set of keys under way, by its place in `keySets`. -/
  underWay : Option Nat := none

/-- Decoding steps: errors are collected in the state; a fatal one stops. -/
abbrev DecodeM := StateT Decoder (Except Stop)

/-- Records an error at a line. -/
def noteError (line : Nat) (text : Bytes) : DecodeM Unit :=
  modify fun d =>
    { d with errors := d.errors.push (Bytes.ofString ("line " ++ toString line ++ ": ") ++ text) }

/-- Too many of the nodes decoded come from aliases: more than a hundred of them out of more
than a thousand, above a share that is 99 in 100 up to 400000 nodes, then falls in a straight
line to 1 in 10 at 4000000 nodes and stays there. -/
def excessiveAliasing (aliased decoded : Nat) : Bool :=
  100 < aliased && 1000 < decoded &&
    (if decoded ≤ 400000 then decoded * 99 < aliased * 100
     else if 4000000 ≤ decoded then decoded < aliased * 10
     else decoded * (356400000 - 89 * (decoded - 400000)) < aliased * 360000000)

/-- Counts a node about to be decoded, inside an alias or not; stops on excessive aliasing. -/
def countNode (inAlias : Bool) : DecodeM Unit := do
  modify fun d => { d with decoded := d.decoded + 1,
                           aliased := if inAlias then d.aliased + 1 else d.aliased }
  let d ← get
  if excessiveAliasing d.aliased d.decoded then
    throw (.fault (Bytes.ofString "yaml: document contains excessive aliasing"))

/-- Starts a new set of keys and puts it under way; gives its place. -/
def openKeySet : DecodeM Nat := do
  let d ← get
  set { d with keySets := d.keySets.push [], underWay := some d.keySets.size }
  pure d.keySets.size

/-- Puts a set back under way, or none, dropping the innermost set if it was opened here. -/
def closeKeySet (saved : Option Nat) (opened : Bool) : DecodeM Unit :=
  modify fun d =>
    { d with keySets := if opened then d.keySets.pop else d.keySets, underWay := saved }

/-- Takes the set under way, leaving none under way; gives the set it took. -/
def takeKeySet : DecodeM (Option Nat) := do
  let d ← get
  set { d with underWay := none }
  pure d.underWay

/-- Whether a set holds a key. A key with no hash crashes: in one wording when the set is
empty, and in another when it is not. -/
def keySetHas (i : Nat) (k : Untyped) : DecodeM Bool := do
  let keys := (← get).keySets.getD i []
  if !k.hashable then
    throw (.crash (if keys.isEmpty then "hash of unhashable type: " ++ k.typeName
      else "runtime error: hash of unhashable type " ++ k.typeName))
  pure (keys.any k.sameKey)

/-- Puts a key into a set; a key with no hash crashes. -/
def keySetAdd (i : Nat) (k : Untyped) : DecodeM Unit := do
  if !k.hashable then
    throw (.crash ("runtime error: hash of unhashable type " ++ k.typeName))
  modify fun d => { d with keySets := d.keySets.modify i (k :: ·) }

/-- Passes over a key already in the set a mapping took over, and puts any other key into it:
true when the key is to be passed over. -/
def passOver (saved : Option Nat) (k : Untyped) : DecodeM Bool :=
  match saved with
  | none => pure false
  | some i => do
    if ← keySetHas i k then return true
    keySetAdd i k
    pure false

/-- Records that a node does not fit a shape. -/
def misfit (n : Node) (tag : Bytes) (shape : Shape) : DecodeM Unit :=
  let tag := if n.tag.isEmpty then tag else n.tag
  let value :=
    if tag == Tag.seq || tag == Tag.map then []
    else if 10 < n.text.length then
      Bytes.ofString " `" ++ n.text.take 7 ++ Bytes.ofString "...`"
    else Bytes.ofString " `" ++ n.text ++ Bytes.ofString "`"
  noteError n.line (Bytes.ofString "cannot unmarshal " ++ Tag.short tag ++ value ++
    Bytes.ofString (" into " ++ shape.typeName))

/-- Records the keys of a mapping given more than once; true when there were some. -/
def noteRepeatedKeys (pairs : List (Node × Node)) : DecodeM Bool := do
  let keys := pairs.map (·.1)
  let mut found := false
  for i in [0:keys.length] do
    for j in [i + 1:keys.length] do
      match keys[i]?, keys[j]? with
      | some a, some b =>
        if a.kindIndex == b.kindIndex && a.text == b.text then
          found := true
          noteError b.line (Bytes.ofString ("mapping key " ++ Quoted.quote b.text ++
            " already defined at line " ++ toString a.line))
      | _, _ => pure ()
  pure found

/-- The words a boolean field also takes. -/
def yesWords : List String := ["y", "Y", "yes", "Yes", "YES", "on", "On", "ON"]

/-- The words a boolean field also takes as false. -/
def noWords : List String := ["n", "N", "no", "No", "NO", "off", "Off", "OFF"]

/-- The integer a float is cut to, when it is at most `2 ^ 63`; past the range of 64 signed
bits it becomes the least one. -/
def floatToInt : FloatClass → Option Int
  | .nan => none
  | .infinite false => none
  | .infinite true => some (-(Nat.pow 2 63))
  | .finite neg m e =>
    let whole : Nat := if 0 ≤ e then m * Nat.pow 2 e.toNat else m / Nat.pow 2 e.natAbs
    let exact : Bool := if 0 ≤ e then true else m % Nat.pow 2 e.natAbs == 0
    if !neg && (Nat.pow 2 63 < whole || (whole == Nat.pow 2 63 && !exact)) then none
    else if Nat.pow 2 63 ≤ whole then some (-(Nat.pow 2 63))
    else some (if neg then -(whole : Int) else whole)

/-- Resolves a scalar node: its tag and what it stands for. The text of a `!!binary` scalar is
base64, and stands for the octets it decodes to. -/
def resolveNode (n : Node) : DecodeM (Bytes × Resolved) :=
  if Tag.short n.tag == Tag.str then pure (Tag.str, .text n.text)
  else match resolve n.tag n.text with
    | .ok (tag, r) =>
      if tag == Tag.binary then
        match decodeBase64 n.text with
        | some data => pure (tag, .text data)
        | none => throw (.fault (Bytes.ofString "yaml: !!binary value contains invalid base64 data"))
      else pure (tag, r)
    | .error e => throw (.fault (Bytes.ofString "yaml: " ++ e))

/-- The text a scalar gives a string: the octets of a `!!binary` scalar, else its text. -/
def stringOf (n : Node) (tag : Bytes) (r : Resolved) : Bytes :=
  match r with
  | .text s => if tag == Tag.binary then s else n.text
  | _ => n.text

/-- Decodes a scalar into an integer, boolean or string shape. -/
def decodeScalar (shape : Shape) (current : Field) (n : Node) : DecodeM Field := do
  let (tag, r) ← resolveNode n
  match r with
  | .null => pure current
  | _ =>
    let fail : DecodeM Field := do
      misfit n tag shape
      pure current
    match shape, r with
    | .text, _ => pure (.text (stringOf n tag r))
    | .int, .int i => pure (.int i)
    | .int, .float f =>
      match floatToInt f with
      | some i => pure (.int i)
      | none => fail
    | .bool, .bool b => pure (.bool b)
    | .bool, .text s =>
      if yesWords.any (fun w => Bytes.ofString w == s) then pure (.bool true)
      else if noWords.any (fun w => Bytes.ofString w == s) then pure (.bool false)
      else fail
    | _, _ => fail

/-- The node is a merge key. -/
def isMergeKey (n : Node) : Bool :=
  match n with
  | .scalar t tag _ =>
    t == Bytes.ofString "<<" && (tag.isEmpty || tag == [0x21] || Tag.short tag == Tag.merge)
  | _ => false

/-- The fault of a merge whose value is not a mapping or a sequence of mappings. -/
def mergeFault : Bytes :=
  Bytes.ofString "yaml: map merge requires map or sequence of maps as the value"

/-- The node is a mapping, or an alias of one. -/
def Node.isMappingLike (doc : Array Node) : Node → Bool
  | .mapping .. => true
  | .alias _ id _ _ =>
    match doc[id]? with
    | some (.mapping ..) => true
    | _ => false
  | _ => false

/-- The node an alias stands for, entered from the aliases being decoded: an alias met again
while its own node is being decoded is a fault that stops decoding. -/
def enterAlias (doc : Array Node) (active : List Nat) (name : Bytes) (id serial : Nat) :
    DecodeM Node :=
  if active.contains serial then
    throw (.fault (Bytes.ofString "yaml: anchor '" ++ name ++ Bytes.ofString "' value contains itself"))
  else pure (doc.getD id default)

/-- The tag a key has as written, an alias taking the tag of the node it stands for. -/
def keyTag (doc : Array Node) : Node → Bytes
  | .alias _ id _ _ => (doc.getD id default).tag
  | n => n.tag

/-- A mapping whose keys are all strings or merge keys by their tags makes a map with string
keys. -/
def stringKeyed (doc : Array Node) (pairs : List (Node × Node)) : Bool :=
  pairs.all fun (k, _) =>
    let t := Tag.short (keyTag doc k)
    t == Tag.str || t == Tag.merge

/-- Sets an entry of a map: in place of an equal key, or last. -/
def putEntry (entries : List (Untyped × Untyped)) (k v : Untyped) : List (Untyped × Untyped) :=
  if entries.any (fun e => k.sameKey e.1) then
    entries.map fun e => if k.sameKey e.1 then (e.1, v) else e
  else entries ++ [(k, v)]

/-- The fault of a map key that is a sequence or a map. -/
def invalidKey (k : Untyped) : Stop :=
  .fault (Bytes.ofString ("yaml: invalid map key: " ++ k.render))

/-- Opens a set of keys for a merge when none is under way: gives the set under way before,
and whether one was opened. -/
def beginMerge : DecodeM (Option Nat × Option Nat) := do
  let saved := (← get).underWay
  match saved with
  | some _ => pure (saved, none)
  | none => pure (saved, some (← openKeySet))

mutual

/-- Decodes a node into a value of no given type; none when it does not decode. -/
def decodeAny (doc : Array Node) (active : List Nat) : Nat → Node → DecodeM (Option Untyped)
  | 0, _ => pure none
  | fuel + 1, n => do
    countNode !active.isEmpty
    match n with
    | .alias name id serial _ =>
      let target ← enterAlias doc active name id serial
      decodeAny doc (serial :: active) fuel target
    | .scalar .. =>
      let (_, r) ← resolveNode n
      pure (some (Untyped.ofResolved n.text r))
    | .sequence _ items _ =>
      let mut values : List Untyped := []
      for item in items do
        if let some v ← decodeAny doc active fuel item then values := values ++ [v]
      pure (some (.list values))
    | .mapping _ pairs _ =>
      if ← noteRepeatedKeys pairs then return none
      let stringKeys := stringKeyed doc pairs
      let entries ← decodeEntries doc active stringKeys [] pairs fuel
      pure (some (.map stringKeys entries))
termination_by structural fuel _ => fuel

/-- Decodes a key into the name it gives: the text of a scalar; none for a null key or a key
that is a collection, which is an error. -/
def decodeName (doc : Array Node) (active : List Nat) : Nat → Node → DecodeM (Option Bytes)
  | 0, _ => pure none
  | fuel + 1, n => do
    countNode !active.isEmpty
    match n with
    | .alias name id serial _ =>
      let target ← enterAlias doc active name id serial
      decodeName doc (serial :: active) fuel target
    | .scalar .. =>
      let (tag, r) ← resolveNode n
      match r with
      | .null => pure none
      | _ => pure (some (stringOf n tag r))
    | .mapping _ pairs _ =>
      if ← noteRepeatedKeys pairs then return none
      misfit n Tag.map .text
      pure none
    | .sequence .. =>
      misfit n Tag.seq .text
      pure none
termination_by structural fuel _ => fuel

/-- Decodes the pairs of a mapping into the entries of a map, with string keys or keys of any
type; a merge key is handled after the other pairs. -/
def decodeEntries (doc : Array Node) (active : List Nat) (stringKeys : Bool)
    (entries : List (Untyped × Untyped)) (pairs : List (Node × Node)) :
    Nat → DecodeM (List (Untyped × Untyped))
  | 0 => pure entries
  | fuel + 1 => do
    let saved ← takeKeySet
    let mut entries := entries
    let mut merged : Option Node := none
    for (k, v) in pairs do
      if isMergeKey k then
        merged := some v
        continue
      let key ← if stringKeys then
          pure ((← decodeName doc active fuel k).map Untyped.text)
        else decodeAny doc active fuel k
      let some key := key | continue
      if ← passOver saved key then continue
      if !key.hashable then throw (invalidKey key)
      if let some value ← decodeAny doc active fuel v then
        entries := putEntry entries key value
    modify fun d => { d with underWay := saved }
    match merged with
    | none => pure entries
    | some m => mergeEntries doc active stringKeys entries pairs m fuel
termination_by structural fuel => fuel

/-- Decodes a mapping, or an alias of one, into a map that has entries already. -/
def decodeIntoEntries (doc : Array Node) (active : List Nat) (stringKeys : Bool)
    (entries : List (Untyped × Untyped)) : Nat → Node → DecodeM (List (Untyped × Untyped))
  | 0, _ => pure entries
  | fuel + 1, n => do
    countNode !active.isEmpty
    match n with
    | .alias name id serial _ =>
      let target ← enterAlias doc active name id serial
      decodeIntoEntries doc (serial :: active) stringKeys entries fuel target
    | .mapping _ pairs _ =>
      if ← noteRepeatedKeys pairs then return entries
      decodeEntries doc active stringKeys entries pairs fuel
    | _ => pure entries
termination_by structural fuel _ => fuel

/-- Merges into a map the mappings a merge key gives, with the keys of the mapping that holds
the merge key in the set of keys when no set is under way. -/
def mergeEntries (doc : Array Node) (active : List Nat) (stringKeys : Bool)
    (entries : List (Untyped × Untyped)) (parent : List (Node × Node)) (m : Node) :
    Nat → DecodeM (List (Untyped × Untyped))
  | 0 => pure entries
  | fuel + 1 => do
    let (saved, opened) ← beginMerge
    if let some i := opened then
      for (k, _) in parent do
        if let some key ← decodeAny doc active fuel k then keySetAdd i key
    let entries ← match m with
      | .mapping .. => decodeIntoEntries doc active stringKeys entries fuel m
      | .alias .. =>
        if !m.isMappingLike doc then throw (.fault mergeFault)
        decodeIntoEntries doc active stringKeys entries fuel m
      | .sequence _ items _ => do
        let mut entries := entries
        for item in items do
          if !item.isMappingLike doc then throw (.fault mergeFault)
          entries ← decodeIntoEntries doc active stringKeys entries fuel item
        pure entries
      | _ => throw (.fault mergeFault)
    closeKeySet saved opened.isSome
    pure entries
termination_by structural fuel => fuel

/-- Decodes a node into a shape, starting from the current value; `active` holds the aliases
being decoded. -/
def decodeNode (doc : Array Node) (shape : Shape) (current : Field) (active : List Nat) :
    Nat → Node → DecodeM Field
  | 0, _ => pure current
  | fuel + 1, n => do
    countNode !active.isEmpty
    match n with
    | .alias name id serial _ =>
      let target ← enterAlias doc active name id serial
      decodeNode doc shape current (serial :: active) fuel target
    | .scalar .. =>
      match shape with
      | .record .. =>
        let (tag, r) ← resolveNode n
        match r with
        | .null => pure current
        | _ =>
          misfit n tag shape
          pure current
      | _ => decodeScalar shape current n
    | .sequence .. =>
      misfit n Tag.seq shape
      pure current
    | .mapping _ pairs _ =>
      if ← noteRepeatedKeys pairs then return current
      match shape with
      | .record typeName fields => decodeRecord doc typeName fields current pairs active fuel
      | _ =>
        misfit n Tag.map shape
        pure current
termination_by structural fuel _ => fuel

/-- Decodes the pairs of a mapping into a record; a merge key is handled after the other
pairs. -/
def decodeRecord (doc : Array Node) (typeName : String) (fields : List (String × Shape))
    (current : Field) (pairs : List (Node × Node)) (active : List Nat) : Nat → DecodeM Field
  | 0 => pure current
  | fuel + 1 => do
    let saved ← takeKeySet
    let mut value := current
    let mut done : List String := []
    let mut merged : Option Node := none
    for (k, v) in pairs do
      if isMergeKey k then
        merged := some v
        continue
      let some name ← decodeName doc active fuel k | continue
      if ← passOver saved (.text name) then continue
      match fields.find? (fun f => Bytes.ofString f.1 == name) with
      | some (fieldName, fieldShape) =>
        if done.contains fieldName then
          noteError k.line (Bytes.ofString "field " ++ name ++
            Bytes.ofString (" already set in type " ++ typeName))
          continue
        done := fieldName :: done
        match value with
        | .record vs =>
          let old := (vs.lookup fieldName).getD default
          let new ← decodeNode doc fieldShape old active fuel v
          value := .record (vs.map fun (n, x) => if n == fieldName then (n, new) else (n, x))
        | _ => pure ()
      | none =>
        noteError k.line (Bytes.ofString "field " ++ name ++
          Bytes.ofString (" not found in type " ++ typeName))
    modify fun d => { d with underWay := saved }
    match merged with
    | none => pure value
    | some m => mergeRecord doc typeName fields value pairs m active fuel
termination_by structural fuel => fuel

/-- Merges into a record the mappings a merge key gives, with the keys of the mapping that
holds the merge key in the set of keys when no set is under way. -/
def mergeRecord (doc : Array Node) (typeName : String) (fields : List (String × Shape))
    (current : Field) (parent : List (Node × Node)) (m : Node) (active : List Nat) :
    Nat → DecodeM Field
  | 0 => pure current
  | fuel + 1 => do
    let (saved, opened) ← beginMerge
    if let some i := opened then
      for (k, _) in parent do
        if let some key ← decodeAny doc active fuel k then keySetAdd i key
    let shape := Shape.record typeName fields
    let value ← match m with
      | .mapping .. => decodeNode doc shape current active fuel m
      | .alias .. =>
        if !m.isMappingLike doc then throw (.fault mergeFault)
        decodeNode doc shape current active fuel m
      | .sequence _ items _ => do
        let mut value := current
        for item in items do
          if !item.isMappingLike doc then throw (.fault mergeFault)
          value ← decodeNode doc shape value active fuel item
        pure value
      | _ => throw (.fault mergeFault)
    closeKeySet saved opened.isSome
    pure value
termination_by structural fuel => fuel

end

mutual

/-- The height of a node, an alias counting as a leaf. -/
def Node.height : Node → Nat
  | .scalar .. | .alias .. => 1
  | .mapping _ pairs _ => pairsHeight pairs + 1
  | .sequence _ items _ => itemsHeight items + 1

/-- The greatest height of the keys and values of pairs. -/
def pairsHeight : List (Node × Node) → Nat
  | [] => 0
  | (a, b) :: rest => max (max a.height b.height) (pairsHeight rest)

/-- The greatest height of items. -/
def itemsHeight : List Node → Nat
  | [] => 0
  | n :: rest => max n.height (itemsHeight rest)

end

mutual

/-- The number of nodes of a node, an alias counting as one. -/
def Node.size : Node → Nat
  | .scalar .. | .alias .. => 1
  | .mapping _ pairs _ => pairsSize pairs + 1
  | .sequence _ items _ => itemsSize items + 1

/-- The number of nodes of the keys and values of pairs. -/
def pairsSize : List (Node × Node) → Nat
  | [] => 0
  | (a, b) :: rest => a.size + b.size + pairsSize rest

/-- The number of nodes of items. -/
def itemsSize : List Node → Nat
  | [] => 0
  | n :: rest => n.size + itemsSize rest

end

/-- Decodes a document into a shape from a starting value: the decoded value and the
errors met, or why decoding stopped. The document node is counted first, then its root is
decoded. Between two aliases, decoding goes down one node level by level, each level costing at
most four steps of fuel (a map, a merge into it, an item of the merge, and one of its keys or
values), and each alias of the stream is entered at most once on the way down, so eight steps
per level of the highest node, once for the root and once more for every node of the stream,
never run out. -/
def decodeDocument (shape : Shape) (start : Field) (d : Document) :
    Except Stop (Field × Array Bytes) :=
  let height := d.anchored.foldl (fun h n => max h n.height) d.root.height
  let size := d.anchored.foldl (fun k n => k + n.size) d.root.size
  let fuel := 8 * (height + 1) * (size + 1) + 16
  let run : DecodeM Field := do
    countNode false
    decodeNode d.anchored shape start [] fuel d.root
  (run.run {}).map fun (v, s) => (v, s.errors)

end ExactJson.Yaml
