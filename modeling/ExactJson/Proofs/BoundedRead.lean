import Mathlib
import ExactJson.Proofs.ReaderComplete
import ExactJson.Reader.Bounded

/-!
# Reading a bounded stream

A stream is read through a window one octet wider than its limit, and the read fails when more
octets than the limit come through. Limits are 64-bit signed integers. For every limit but the
greatest one this is exactly the bound (`readBounded_of_ne_max`): a stream that fits comes back
whole, and a longer one fails at the offset of the limit. Reading a document from a stream is
then reading it from its text, but for the size failure, which names the limit as its offset
and has its own message (`readStream_of_ne_max`).

The window's width is computed in 64 bits, so at the greatest limit, `2 ^ 63 - 1`, it wraps to
`-2 ^ 63`, and nothing is read at all: every stream reads as empty (`readBounded_max`), and a
document that fits the limit is refused as an empty text (`readStream_max`).
-/

namespace ExactJson

theorem windowWidth_of_ne_max {limit : Int64} (h : limit ≠ Int64.maxValue) :
    windowWidth limit.toInt = limit.toInt + 1 := by
  have hlo := Int64.le_toInt limit
  have hhi := Int64.toInt_lt limit
  have hne : limit.toInt ≠ 9223372036854775807 := by
    intro he
    apply h
    rw [← Int64.toInt_inj, he]
    decide
  have hhalf : ((Nat.pow 2 63 : Nat) : Int) = 9223372036854775808 := by norm_num
  norm_num at hlo hhi
  simp only [windowWidth, hhalf]
  rw [Int.emod_eq_of_lt (by omega) (by omega)]
  omega

theorem windowWidth_max : windowWidth Int64.maxValue.toInt = -9223372036854775808 := by
  have hmax : Int64.maxValue.toInt = 9223372036854775807 := by decide
  have hhalf : ((Nat.pow 2 63 : Nat) : Int) = 9223372036854775808 := by norm_num
  simp only [windowWidth, hmax, hhalf]
  norm_num

/-- The size failure of a bounded read. -/
def oversize (limit : Int) : Failure :=
  Failure.make .boundExceeded limit ("input exceeds maximum size " ++ toString limit ++ " bytes")

/-- Below the greatest 64-bit limit, a bounded read gives the whole stream when it fits the
limit, and fails at the limit otherwise. -/
theorem readBounded_of_ne_max (data : Array UInt8) {limit : Int64} (h : limit ≠ Int64.maxValue) :
    readBounded data limit.toInt =
      if (data.size : Int) ≤ limit.toInt then .ok data else .error (oversize limit.toInt) := by
  simp only [readBounded, windowWidth_of_ne_max h]
  by_cases hneg : limit.toInt + 1 ≤ 0
  · -- a negative limit reads nothing, and even nothing is more than it
    rw [if_pos hneg, if_pos (by simp; omega), if_neg (by omega)]
    rfl
  · rw [if_neg hneg]
    have hsize : ((data.extract 0 (limit.toInt + 1).toNat).size : Int) =
        min (limit.toInt + 1) data.size := by
      rw [Array.size_extract]
      omega
    by_cases hfit : (data.size : Int) ≤ limit.toInt
    · have hwhole : data.extract 0 (limit.toInt + 1).toNat = data :=
        Array.extract_eq_self_of_le (by omega)
      rw [if_pos hfit, hwhole, if_neg (by omega)]
    · -- one octet past the limit comes through the window
      rw [if_neg hfit, if_pos (by omega)]
      rfl

/-- At the greatest 64-bit limit the window's width wraps, and the read sees nothing. -/
theorem readBounded_max (data : Array UInt8) : readBounded data Int64.maxValue.toInt = .ok #[] := by
  have hmax : ¬Int64.maxValue.toInt < 0 := by decide
  simp [readBounded, windowWidth_max, hmax]

-- a positive size limit is the one the options give, so below the greatest 64-bit integer it is
-- a 64-bit limit other than the greatest
theorem sizeLimit_toInt64 {o : ReadOptions} (ho : o.maxInputSize < Int64.maxValue.toInt) :
    ∃ limit : Int64, limit ≠ Int64.maxValue ∧ (o.sizeLimit : Int) = limit.toInt := by
  have hmax : Int64.maxValue.toInt = 9223372036854775807 := by decide
  have hdef : ReadOptions.defaultMaxInputSize = 67108864 := rfl
  have hpos : (o.sizeLimit : Int) < 9223372036854775807 := by
    unfold ReadOptions.sizeLimit
    split_ifs <;> omega
  refine ⟨Int64.ofInt o.sizeLimit, fun he => ?_, ?_⟩
  · have := congrArg Int64.toInt he
    rw [Int64.toInt_ofInt_of_le (by omega) (by omega)] at this
    omega
  · rw [Int64.toInt_ofInt_of_le (by omega) (by omega)]

/-- Reading a document from a stream is reading it from the text, as long as the size limit is
not the greatest 64-bit integer: the same value, or the same failure, except that a text over
the limit fails with the bounded read's own size failure. -/
theorem readStream_of_ne_max (o : ReadOptions) (data : Array UInt8)
    (ho : o.maxInputSize < Int64.maxValue.toInt) :
    readStream o data =
      if data.size ≤ o.sizeLimit then readDocument o data else .error (oversize o.sizeLimit) := by
  obtain ⟨limit, hne, hlim⟩ := sizeLimit_toInt64 ho
  unfold readStream
  rw [hlim, readBounded_of_ne_max data hne, ← hlim]
  by_cases hfit : data.size ≤ o.sizeLimit
  · rw [if_pos (by omega), if_pos hfit]
    rfl
  · rw [if_neg (by omega), if_neg hfit]
    rfl

/-- A text over the size limit is refused by the document reader too, with a size failure of
the same class at offset `0`. -/
theorem readDocument_of_sizeLimit_lt {o : ReadOptions} {t : Array UInt8} (h : o.sizeLimit < t.size) :
    readDocument o t = .error (Failure.make .boundExceeded 0
      ("input size " ++ toString t.size ++ " exceeds maximum " ++ toString o.sizeLimit)) := by
  unfold readDocument
  rw [if_pos h]

/-- At the greatest size limit every stream reads as the empty text. -/
theorem readStream_max (o : ReadOptions) (data : Array UInt8)
    (ho : o.maxInputSize = Int64.maxValue.toInt) : readStream o data = readDocument o #[] := by
  have hlim : (o.sizeLimit : Int) = Int64.maxValue.toInt := by
    have hpos : 0 < o.maxInputSize := by rw [ho]; decide
    unfold ReadOptions.sizeLimit
    rw [if_pos hpos, ← ho]
    omega
  unfold readStream
  rw [hlim, readBounded_max]
  rfl

/-- The greatest size limit refuses the smallest document, which the document reader reads. -/
theorem readStream_max_refuses :
    readDocument { maxInputSize := Int64.maxValue.toInt } #[0x5B, 0x5D] = .ok (.arr []) ∧
      readStream { maxInputSize := Int64.maxValue.toInt } #[0x5B, 0x5D] =
        readDocument { maxInputSize := Int64.maxValue.toInt } #[] := by
  refine ⟨readDocument_complete (by decide) ⟨_, [], .nil _, .emptyArray (.nil _), .nil _⟩, ?_⟩
  exact readStream_max _ _ rfl

end ExactJson
