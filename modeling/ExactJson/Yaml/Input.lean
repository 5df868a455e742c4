import ExactJson.Text.Utf8

/-!
# The characters of a YAML stream

A YAML stream is read in pieces of 512 octets and decoded into characters as the scanner needs
them:

* the encoding is found from the first octets: `FF FE` starts UTF-16 with the low octet first,
  `FE FF` UTF-16 with the high octet first, and `EF BB BF` UTF-8; these marks are dropped. Any
  other start is UTF-8, kept whole;
* each piece is decoded up to the last character it holds whole; the octets of a character cut
  by the end of the piece are read again at the start of the next piece, which holds the 512
  octets from there;
* a character that is badly encoded, or that YAML does not allow (a control character other
  than tab, line feed and carriage return, a surrogate, or `FFFE` and `FFFF`), is a fault,
  met when the piece holding it is decoded; a character cut by the end of the stream is a fault
  too, met when the end is;
* the end of the stream is found by asking for more after the last octet; only a stream of
  fewer than three octets is known to end as soon as its first piece is read.

So the scanner may read many characters before it meets a fault that lies further on, and a
fault in a later document of a stream is met only when that document is scanned.
-/

namespace ExactJson.Yaml

/-- How the octets of a stream encode characters. -/
inductive Encoding where
  | utf8
  /-- UTF-16, the low octet of each unit first. -/
  | utf16Low
  /-- UTF-16, the high octet of each unit first. -/
  | utf16High
  deriving DecidableEq, Repr

/-- The characters of a stream as the scanner receives them. -/
structure Input where
  /-- The characters decoded before any fault, in UTF-8. -/
  text : Array UInt8
  /-- For each piece decoded, the number of characters decoded up to its end; the last entry
  stands for the end of the stream when a cut character is found there. -/
  pieces : Array Nat
  /-- The fault met decoding the last piece, if any. -/
  fault : Option String := none
  /-- The end of the stream was known before the first piece was decoded. -/
  endsEarly : Bool := false
  deriving Repr

/-- The characters YAML allows in a stream. -/
def allowedCode (c : Nat) : Bool :=
  c == 0x09 || c == 0x0A || c == 0x0D || (0x20 ≤ c && c ≤ 0x7E) || c == 0x85 ||
    (0xA0 ≤ c && c ≤ 0xD7FF) || (0xE000 ≤ c && c ≤ 0xFFFD) || (0x10000 ≤ c && c ≤ 0x10FFFF)

/-- The encoding of a stream, and the length of the mark that gives it. -/
def encodingOf (raw : Array UInt8) : Encoding × Nat :=
  let octetAt (i : Nat) : UInt8 := raw.getD i 0
  if 2 ≤ raw.size && octetAt 0 == 0xFF && octetAt 1 == 0xFE then (.utf16Low, 2)
  else if 2 ≤ raw.size && octetAt 0 == 0xFE && octetAt 1 == 0xFF then (.utf16High, 2)
  else if 3 ≤ raw.size && octetAt 0 == 0xEF && octetAt 1 == 0xBB && octetAt 2 == 0xBF then (.utf8, 3)
  else (.utf8, 0)

/-- What decoding meets at a place of a piece. -/
inductive Step where
  /-- A character and the number of its octets. -/
  | char (code width : Nat)
  /-- A character cut by the end of the piece. -/
  | cut
  /-- A fault. -/
  | fault (problem : String)

/-- Decodes the character at `i` of a stream, whose current piece ends at `stop`; `atEnd` says
that the stream is known to end there. -/
def decodeAt (enc : Encoding) (raw : Array UInt8) (i stop : Nat) (atEnd : Bool) : Step :=
  let octetAt (k : Nat) : UInt8 := raw.getD (i + k) 0
  let cut (problem : String) : Step := if atEnd then .fault problem else .cut
  let checked (code width : Nat) : Step :=
    if allowedCode code then .char code width else .fault "control characters are not allowed"
  match enc with
  | .utf8 =>
    let b := octetAt 0
    let width : Nat := if b &&& 0x80 == 0 then 1 else if b &&& 0xE0 == 0xC0 then 2
      else if b &&& 0xF0 == 0xE0 then 3 else if b &&& 0xF8 == 0xF0 then 4 else 0
    if width == 0 then .fault "invalid leading UTF-8 octet"
    else if stop < i + width then cut "incomplete UTF-8 octet sequence"
    else
      let lead : Nat :=
        if width == 1 then (b &&& 0x7F).toNat else if width == 2 then (b &&& 0x1F).toNat
        else if width == 3 then (b &&& 0x0F).toNat else (b &&& 0x07).toNat
      let trailing := (List.range (width - 1)).map fun k => octetAt (k + 1)
      if trailing.any (fun o => o &&& 0xC0 != 0x80) then .fault "invalid trailing UTF-8 octet"
      else
        let code := trailing.foldl (fun v o => v * 64 + (o &&& 0x3F).toNat) lead
        if !(width == 1 || (width == 2 && 0x80 ≤ code) || (width == 3 && 0x800 ≤ code) ||
            (width == 4 && 0x10000 ≤ code)) then .fault "invalid length of a UTF-8 sequence"
        else if (0xD800 ≤ code && code ≤ 0xDFFF) || 0x10FFFF < code then
          .fault "invalid Unicode character"
        else checked code width
  | .utf16Low | .utf16High =>
    let unit (k : Nat) : Nat :=
      if enc == .utf16Low then (octetAt k).toNat + 256 * (octetAt (k + 1)).toNat
      else 256 * (octetAt k).toNat + (octetAt (k + 1)).toNat
    if stop < i + 2 then cut "incomplete UTF-16 character"
    else
      let first := unit 0
      if first / 1024 == 0xDC00 / 1024 then .fault "unexpected low surrogate area"
      else if first / 1024 == 0xD800 / 1024 then
        if stop < i + 4 then cut "incomplete UTF-16 surrogate pair"
        else
          let second := unit 2
          if second / 1024 != 0xDC00 / 1024 then .fault "expected low surrogate area"
          else checked (0x10000 + (first % 1024) * 1024 + second % 1024) 4
      else checked first 2

/-- The size of a piece. -/
def pieceSize : Nat := 512

/-- Decodes one piece, from `i` up to `stop`: the characters read, as UTF-8, with their count;
where decoding stopped; and the fault met, if any. -/
def decodePiece (enc : Encoding) (raw : Array UInt8) (stop : Nat) (atEnd : Bool) :
    Nat → Nat → Array UInt8 × Nat → Array UInt8 × Nat × Nat × Option String
  | 0, i, (text, count) => (text, count, i, none)
  | fuel + 1, i, (text, count) =>
    if stop ≤ i then (text, count, i, none)
    else match decodeAt enc raw i stop atEnd with
      | .cut => (text, count, i, none)
      | .fault problem => (text, count, i, some problem)
      | .char code width =>
        decodePiece enc raw stop atEnd fuel (i + width) (text ++ (Utf8.encode code).toArray, count + 1)

/-- Decodes a stream piece by piece, from `start` on, up to the first fault. -/
def decodePieces (enc : Encoding) (raw : Array UInt8) :
    Nat → Nat → Input → Input
  | 0, _, input => input
  | fuel + 1, start, input =>
    if raw.size ≤ start then input
    else
      let stop := min raw.size (start + pieceSize)
      let begin := if input.pieces.isEmpty then (encodingOf raw).2 else start
      let (text, count, next, fault) :=
        decodePiece enc raw stop input.endsEarly (stop - begin + 1) begin (input.text, input.pieces.back?.getD 0)
      let input := { input with text, pieces := input.pieces.push count, fault }
      if fault.isSome then input
      else if stop == raw.size && next < raw.size then
        -- a character cut by the end of the stream is met when the end is
        let problem := match decodeAt enc raw next raw.size true with
          | .fault p => p
          | _ => "incomplete UTF-8 octet sequence"
        { input with pieces := input.pieces.push count, fault := some problem }
      else decodePieces enc raw fuel next input

/-- Decodes a stream into the characters the scanner receives, and the pieces they come in. -/
def Input.decode (raw : Array UInt8) : Input :=
  let enc := (encodingOf raw).1
  let early := raw.size < 3
  let input := decodePieces enc raw (raw.size + 1) 0 { text := #[], pieces := #[], endsEarly := early }
  if input.pieces.isEmpty then { input with pieces := #[0] } else input

end ExactJson.Yaml
