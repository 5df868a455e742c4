import ExactJson.Reader.Document

/-!
# Bounded input

A stream is read only up to a limit: a stream with more octets than the limit fails at the
offset of the limit, before anything is parsed, and a stream within it is read as a document
under the same options, whose size limit is the bound.

The stream is read through a window one octet wider than the limit, so that one octet too many
is seen. The window's width is a 64-bit signed count: for the greatest limit, 2^63 - 1, it wraps
to a negative width, and then nothing is read at all and the stream reads as empty.
-/

namespace ExactJson

/-- The width of the window for a limit: `limit + 1` as a 64-bit signed count. -/
def windowWidth (limit : Int) : Int :=
  let half : Int := Nat.pow 2 63
  (limit + 1 + half) % (2 * half) - half

/-- The octets of a stream seen through the window of a limit, and a failure when they are more
than the limit. -/
def readBounded (data : Array UInt8) (limit : Int) : Except Failure (Array UInt8) :=
  let width := windowWidth limit
  let seen := if width ≤ 0 then #[] else data.extract 0 width.toNat
  if limit < seen.size then
    .error (Failure.make .boundExceeded limit
      ("input exceeds maximum size " ++ toString limit ++ " bytes"))
  else .ok seen

/-- Reads a document from a stream bounded by the size limit of the options. -/
def readStream (o : ReadOptions) (data : Array UInt8) : Except Failure Value := do
  let d ← readBounded data o.sizeLimit
  readDocument o d

end ExactJson
