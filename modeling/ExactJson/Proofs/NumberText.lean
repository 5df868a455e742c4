import Mathlib
import ExactJson.Number.Run
import ExactJson.Reader.Code

/-!
# Number texts

The writer prints an integer with `toString` and a decimal with `Decimal.render`; the reader
turns a numeric run back into a number with `readNumber`. This module takes the printed texts
apart octet by octet:

* the octets of a string are the UTF-8 encodings of its characters, one octet for each digit;
* the digits of a natural number, read from the left, give the number back, with or without a
  bound on the magnitude;
* an integer's text reads back as that integer, and a decimal's text as a decimal of the same
  value, provided its exponent fits 32 bits as the decimals of the host do.
-/

namespace ExactJson

/-! ## Octets of strings -/

section Octets

theorem ByteArray.toList_loop_eq (bs : ByteArray) (i : Nat) (r : List UInt8) :
    ByteArray.toList.loop bs i r = r.reverse ++ bs.data.toList.drop i := by
  fun_induction ByteArray.toList.loop bs i r with
  | case1 i r h ih =>
    rw [ih]
    have hi : i < bs.data.toList.length := by rw [Array.length_toList]; exact h
    have hget : bs.get! i = bs.data.toList[i] := by
      obtain ⟨l⟩ := bs
      show l[i]! = _
      rw [getElem!_pos l i h, Array.getElem_toList]
    rw [List.drop_eq_getElem_cons hi, hget]
    simp
  | case2 i r h =>
    rw [List.drop_eq_nil_of_le (by rw [Array.length_toList]; exact Nat.le_of_not_lt h)]
    simp

theorem Bytes.ofString_ofList (l : List Char) :
    Bytes.ofString (String.ofList l) = l.flatMap String.utf8EncodeChar := by
  rw [Bytes.ofString, String.toUTF8_eq_toByteArray, String.toByteArray_ofList, ByteArray.toList,
    ByteArray.toList_loop_eq]
  simp [List.utf8Encode]

theorem Bytes.ofString_eq_flatMap (s : String) :
    Bytes.ofString s = s.toList.flatMap String.utf8EncodeChar := by
  rw [← Bytes.ofString_ofList, String.ofList_toList]

theorem Bytes.ofString_append (a b : String) :
    Bytes.ofString (a ++ b) = Bytes.ofString a ++ Bytes.ofString b := by
  simp [Bytes.ofString_eq_flatMap]

end Octets

/-! ## Digits -/

section Digits

/-- The digits of a number of two digits or more: those of its quotient by the base, and its
last one. -/
theorem toDigits_split {b m : Nat} (hb : 1 < b) (h : b ≤ m) :
    Nat.toDigits b m = Nat.toDigits b (m / b) ++ [Nat.digitChar (m % b)] := by
  rw [← Nat.toDigits_of_lt_base (Nat.mod_lt m (by omega)),
    Nat.toDigits_append_toDigits hb (Nat.div_pos h (by omega)) (Nat.mod_lt m (by omega)),
    Nat.div_add_mod]

theorem mem_toDigits {m : Nat} {c : Char} (h : c ∈ Nat.toDigits 10 m) :
    ∃ d < 10, c = Nat.digitChar d := by
  induction m using Nat.strong_induction_on with
  | _ m ih =>
    by_cases hm : m < 10
    · rw [Nat.toDigits_of_lt_base hm, List.mem_singleton] at h
      exact ⟨m, hm, h⟩
    · rw [toDigits_split (by norm_num) (by omega), List.mem_append, List.mem_singleton] at h
      rcases h with h | h
      · exact ih (m / 10) (by omega) h
      · exact ⟨m % 10, Nat.mod_lt m (by norm_num), h⟩

theorem encode_digitChar {d : Nat} (hd : d < 16) :
    String.utf8EncodeChar (Nat.digitChar d) = [(Nat.digitChar d).val.toUInt8] := by
  revert d
  decide

theorem digitValue_digitChar {d : Nat} (hd : d < 10) :
    Integer.digitValue? (Nat.digitChar d).val.toUInt8 = some d := by
  revert d
  decide

/-- Digit characters take one octet each. -/
theorem encode_digits {l : List Char} (hl : ∀ c ∈ l, ∃ d < 10, c = Nat.digitChar d) :
    l.flatMap String.utf8EncodeChar = l.map fun c => c.val.toUInt8 := by
  induction l with
  | nil => rfl
  | cons c l ih =>
    obtain ⟨d, hd, rfl⟩ := hl c (by simp)
    rw [List.flatMap_cons, encode_digitChar (by omega), ih (fun c hc => hl c (by simp [hc]))]
    rfl

theorem ofString_digitChars {l : List Char} (hl : ∀ c ∈ l, ∃ d < 10, c = Nat.digitChar d) :
    Bytes.ofString (String.ofList l) = l.map fun c => c.val.toUInt8 := by
  rw [Bytes.ofString_ofList, encode_digits hl]

/-- The octets of the decimal digits of `m`, most significant first. -/
def digitOctets (m : Nat) : Bytes := (Nat.toDigits 10 m).map fun c => c.val.toUInt8

theorem toList_repr (m : Nat) : (toString m).toList = Nat.toDigits 10 m := by
  show (Nat.repr m).toList = _
  rw [Nat.repr_eq_ofList_toDigits, String.toList_ofList]

theorem ofString_repr (m : Nat) : Bytes.ofString (Nat.repr m) = digitOctets m := by
  rw [Nat.repr_eq_ofList_toDigits, ofString_digitChars (fun c hc => mem_toDigits hc), digitOctets]

theorem digitOctets_ne_nil (m : Nat) : digitOctets m ≠ [] := by
  simp [digitOctets, Nat.toDigits_ne_nil]

theorem mem_digitOctets {m : Nat} {b : UInt8} (h : b ∈ digitOctets m) :
    ∃ d < 10, b = (Nat.digitChar d).val.toUInt8 := by
  obtain ⟨c, hc, rfl⟩ := List.mem_map.mp h
  obtain ⟨d, hd, rfl⟩ := mem_toDigits hc
  exact ⟨d, hd, rfl⟩

theorem readAllDigits_append (acc : Nat) (xs ys : Bytes) :
    Integer.readAllDigits acc (xs ++ ys) =
      (Integer.readAllDigits acc xs).bind fun a => Integer.readAllDigits a ys := by
  induction xs generalizing acc with
  | nil => rfl
  | cons b xs ih =>
    simp only [List.cons_append, Integer.readAllDigits]
    cases Integer.digitValue? b <;> simp [ih]

/-- The digits of `m` read from the left give `m`. -/
theorem readAllDigits_digits (m : Nat) : Integer.readAllDigits 0 (digitOctets m) = some m := by
  unfold digitOctets
  induction m using Nat.strong_induction_on with
  | _ m ih =>
    by_cases hm : m < 10
    · rw [Nat.toDigits_of_lt_base hm, List.map_singleton]
      simp only [Integer.readAllDigits, digitValue_digitChar hm, Option.bind_some, Nat.zero_mul,
        Nat.zero_add]
    · rw [toDigits_split (by norm_num) (by omega), List.map_append, readAllDigits_append,
        ih (m / 10) (by omega),
        List.map_singleton]
      simp only [Integer.readAllDigits, digitValue_digitChar (Nat.mod_lt m (by norm_num : 10 > 0)),
        Option.bind_some, Nat.div_add_mod']

/-- Leading zeros add nothing. -/
theorem readAllDigits_zeros (j : Nat) (xs : Bytes) :
    Integer.readAllDigits 0 (List.replicate j 0x30 ++ xs) = Integer.readAllDigits 0 xs := by
  induction j with
  | zero => rfl
  | succ j ih =>
    rw [List.replicate_succ, List.cons_append, Integer.readAllDigits]
    exact ih

theorem readDigits_append (bound acc : Nat) (xs ys : Bytes) :
    Integer.readDigits bound acc (xs ++ ys) =
      (Integer.readDigits bound acc xs).bind fun a => Integer.readDigits bound a ys := by
  induction xs generalizing acc with
  | nil => rfl
  | cons b xs ih =>
    simp only [List.cons_append, Integer.readDigits]
    cases Integer.digitValue? b with
    | none => rfl
    | some d =>
      simp only
      split_ifs
      · rfl
      · exact ih _

/-- The digits of `m` read from the left give `m` when `m` is within the bound, since every
prefix stands for at most `m`. -/
theorem readDigits_digits {bound m : Nat} (h : m ≤ bound) :
    Integer.readDigits bound 0 (digitOctets m) = .ok m := by
  unfold digitOctets
  induction m using Nat.strong_induction_on with
  | _ m ih =>
    by_cases hm : m < 10
    · rw [Nat.toDigits_of_lt_base hm, List.map_singleton]
      simp only [Integer.readDigits, digitValue_digitChar hm, Nat.zero_mul, Nat.zero_add]
      rw [if_neg (by omega)]
    · rw [toDigits_split (by norm_num) (by omega), List.map_append, readDigits_append,
        ih (m / 10) (by omega) (by omega), List.map_singleton]
      simp only [Except.bind, Integer.readDigits,
        digitValue_digitChar (Nat.mod_lt m (by norm_num : 10 > 0))]
      rw [if_neg (by omega), Nat.div_add_mod']

end Digits

/-! ## Integers -/

section Integers

theorem splitSign_of_ne {b : UInt8} (rest : Bytes) (h₁ : b ≠ 0x2B) (h₂ : b ≠ 0x2D) :
    Integer.splitSign (b :: rest) = (false, b :: rest) := by
  unfold Integer.splitSign
  split <;> simp_all

/-- Digits carry no sign. -/
theorem splitSign_digits (m : Nat) :
    Integer.splitSign (digitOctets m) = (false, digitOctets m) := by
  obtain ⟨b, rest, hb⟩ := List.exists_cons_of_ne_nil (digitOctets_ne_nil m)
  obtain ⟨d, hd, rfl⟩ := mem_digitOctets (hb ▸ List.mem_cons_self)
  have hsign : ∀ d < 10, (Nat.digitChar d).val.toUInt8 ≠ 0x2B ∧
      (Nat.digitChar d).val.toUInt8 ≠ 0x2D := by decide
  rw [hb]
  exact splitSign_of_ne rest (hsign d hd).1 (hsign d hd).2

theorem ofInt_natCast (m : Nat) : Bytes.ofInt m = digitOctets m :=
  ofString_repr m

theorem ofInt_negSucc (m : Nat) : Bytes.ofInt (Int.negSucc m) = 0x2D :: digitOctets (m + 1) := by
  have hdash : Bytes.ofString "-" = [0x2D] := by cbv
  show Bytes.ofString ("-" ++ Nat.repr (m + 1)) = _
  rw [Bytes.ofString_append, ofString_repr, hdash]
  rfl

theorem readSigned_digits {m : Nat} (h : m < Nat.pow 2 63) :
    Integer.readSigned 64 (digitOctets m) = .ok m := by
  have hb : m ≤ Nat.pow 2 64 - 1 := by
    have : Nat.pow 2 64 = 2 * Nat.pow 2 63 := by norm_num
    omega
  simp only [Integer.readSigned, splitSign_digits, Integer.readUnsigned,
    List.isEmpty_eq_false_iff.mpr (digitOctets_ne_nil m), readDigits_digits hb]
  simp [Nat.not_le.mpr h]

theorem readSigned_neg_digits {m : Nat} (h : m ≤ Nat.pow 2 63) :
    Integer.readSigned 64 (0x2D :: digitOctets m) = .ok (-(m : Int)) := by
  have hb : m ≤ Nat.pow 2 64 - 1 := by
    have : Nat.pow 2 64 = 2 * Nat.pow 2 63 := by norm_num
    omega
  simp only [Integer.readSigned, Integer.splitSign, Integer.readUnsigned,
    List.isEmpty_eq_false_iff.mpr (digitOctets_ne_nil m), readDigits_digits hb]
  simp [Nat.not_lt.mpr h]

/-- The text of a 64-bit integer reads back as that integer. -/
theorem readInt64_ofInt (n : Int64) : Integer.readInt64? (Bytes.ofInt n.toInt) = some n := by
  have hlt := Int64.toInt_lt n
  have hle := Int64.le_toInt n
  have h63 : Nat.pow 2 63 = 9223372036854775808 := by norm_num
  have h63' : (2 : Int) ^ 63 = 9223372036854775808 := by norm_num
  rcases hn : n.toInt with m | m
  · rw [Int.ofNat_eq_natCast] at hn
    rw [hn] at hlt
    have hm : m < Nat.pow 2 63 := by omega
    rw [Int.ofNat_eq_natCast, ofInt_natCast, Integer.readInt64?, readSigned_digits hm]
    show some (Int64.ofInt (m : Int)) = some n
    rw [← hn, Int64.ofInt_toInt]
  · rw [Int.negSucc_eq] at hn
    rw [hn] at hle
    have hm : m + 1 ≤ Nat.pow 2 63 := by omega
    rw [ofInt_negSucc, Integer.readInt64?, readSigned_neg_digits hm]
    show some (Int64.ofInt (-((m + 1 : Nat) : Int))) = some n
    rw [show (-((m + 1 : Nat) : Int)) = n.toInt by rw [hn]; push_cast; ring, Int64.ofInt_toInt]

/-- The text of a 64-bit integer is a number run that reads back as that integer. -/
theorem readNumber_ofInt (n : Int64) (o : NumberOptions) :
    readNumber (Bytes.ofInt n.toInt) o = .ok (.integer n) := by
  have hne : Bytes.ofInt n.toInt ≠ [] := by
    rcases n.toInt with m | m
    · exact ofInt_natCast m ▸ digitOctets_ne_nil m
    · simp [ofInt_negSucc]
  rw [readNumber, if_neg (by simpa using hne), readInt64_ofInt]

end Integers

/-! ## Normal forms of decimals -/

section Normalize

namespace Decimal

theorem stripZeros_eq (c e : Int) :
    stripZeros c e = if c ≠ 0 ∧ c % 10 = 0 then stripZeros (c / 10) (e + 1) else (c, e) := by
  rw [stripZeros]
  rfl

/-- Trailing zeros added to a coefficient are stripped again. -/
theorem stripZeros_scale {c : Int} (hc : c ≠ 0) (e : Int) (j : Nat) :
    stripZeros (c * 10 ^ j) e = stripZeros c (e + j) := by
  induction j generalizing e with
  | zero => simp
  | succ j ih =>
    have hne : c * 10 ^ (j + 1) ≠ 0 := mul_ne_zero hc (pow_ne_zero _ (by norm_num))
    rw [stripZeros_eq, if_pos ⟨hne, by rw [pow_succ, ← mul_assoc]; simp⟩,
      show c * 10 ^ (j + 1) / 10 = c * 10 ^ j by rw [pow_succ, ← mul_assoc]; simp, ih]
    congr 1
    push_cast
    ring

theorem normalize_scale (c e : Int) (j : Nat) :
    normalize ⟨c * 10 ^ j, e⟩ = normalize ⟨c, e + j⟩ := by
  by_cases hc : c = 0
  · simp [normalize, hc]
  · have hne : c * 10 ^ j ≠ 0 := mul_ne_zero hc (pow_ne_zero _ (by norm_num))
    simp only [normalize, if_neg hne, if_neg hc, stripZeros_scale hc]

/-- What `stripZeros` leaves has no trailing zero, is zero only when it started so, and has an
exponent at least the one it started with. -/
theorem stripZeros_spec (c e : Int) :
    ¬((stripZeros c e).1 ≠ 0 ∧ (stripZeros c e).1 % 10 = 0) ∧
      (c ≠ 0 → (stripZeros c e).1 ≠ 0) ∧ e ≤ (stripZeros c e).2 := by
  fun_induction stripZeros c e with
  | case1 c e h ih =>
    obtain ⟨h₁, h₂, h₃⟩ := ih
    exact ⟨h₁, fun _ => h₂ (by omega), by omega⟩
  | case2 c e h => exact ⟨h, id, le_rfl⟩

theorem normalize_normalize (d : Decimal) : normalize (normalize d) = normalize d := by
  by_cases hc : d.coeff = 0
  · simp [normalize, hc]
  · obtain ⟨h₁, h₂, -⟩ := stripZeros_spec d.coeff d.exp
    have hn : normalize d = ⟨(stripZeros d.coeff d.exp).1, (stripZeros d.coeff d.exp).2⟩ := by
      simp [normalize, hc]
    rw [hn, normalize, if_neg (h₂ hc), stripZeros_eq, if_neg h₁]

/-- Normalizing raises the exponent, unless the decimal is zero. -/
theorem le_normalize_exp {d : Decimal} (hc : d.coeff ≠ 0) : d.exp ≤ (normalize d).exp := by
  simp only [normalize, if_neg hc]
  exact (stripZeros_spec d.coeff d.exp).2.2

theorem normalize_of_coeff_zero {d : Decimal} (hc : d.coeff = 0) : normalize d = ⟨0, 0⟩ := by
  simp [normalize, hc]

end Decimal

end Normalize

/-! ## Reading signed digits -/

section Reading

/-- The sign of a number's text: a minus when it is negative. -/
def signOctets (neg : Bool) : Bytes := if neg then [0x2D] else []

/-- The integer of a sign and a magnitude. -/
def signed (neg : Bool) (m : Nat) : Int := if neg then -(m : Int) else m

theorem ofString_sign (c : Int) :
    Bytes.ofString (if c < 0 then "-" else "") = signOctets (decide (c < 0)) := by
  by_cases h : c < 0
  · simp only [h, if_true, decide_true, signOctets]
    cbv
  · simp only [h, if_false, decide_false, signOctets, Bool.false_eq_true]
    cbv

theorem signed_mul (neg : Bool) (m k : Nat) : signed neg (m * k) = signed neg m * k := by
  cases neg <;> simp [signed]

theorem signed_natAbs (c : Int) : signed (decide (c < 0)) c.natAbs = c := by
  by_cases h : c < 0
  · rw [signed, if_pos (decide_eq_true h), Int.ofNat_natAbs_of_nonpos h.le, neg_neg]
  · rw [signed, if_neg (by simpa using h), Int.natAbs_of_nonneg (not_lt.mp h)]

/-- A digit octet is no point, sign or exponent mark. -/
theorem digit_ne {b : UInt8} (h : Code.isDigit b.toNat = true) :
    b ≠ 0x2E ∧ b ≠ 0x2B ∧ b ≠ 0x2D ∧ Decimal.isExponentMark b = false := by
  simp only [Code.isDigit, Bool.and_eq_true, decide_eq_true_eq] at h
  have hne : ∀ c : UInt8, (c.toNat < 48 ∨ 57 < c.toNat) → b ≠ c := by
    rintro c hc rfl
    omega
  refine ⟨hne _ (by decide), hne _ (by decide), hne _ (by decide), ?_⟩
  simp [Decimal.isExponentMark, hne 0x65 (by decide), hne 0x45 (by decide)]

theorem digit_of_mem_digitOctets {m : Nat} {b : UInt8} (h : b ∈ digitOctets m) :
    Code.isDigit b.toNat = true := by
  have hdigit : ∀ d < 10, Code.isDigit ((Nat.digitChar d).val.toUInt8).toNat = true := by decide
  obtain ⟨d, hd, rfl⟩ := mem_digitOctets h
  exact hdigit d hd

theorem splitSign_signed (neg : Bool) {W : Bytes} (hW : W ≠ [])
    (hd : ∀ b ∈ W, Code.isDigit b.toNat = true) (T : Bytes) :
    Integer.splitSign (signOctets neg ++ W ++ T) = (neg, W ++ T) := by
  cases neg with
  | true => rfl
  | false =>
    obtain ⟨b, W', rfl⟩ := List.exists_cons_of_ne_nil hW
    have hb := digit_ne (hd b List.mem_cons_self)
    exact splitSign_of_ne _ hb.2.1 hb.2.2.1

theorem readDigits_error_of_mem {bound acc : Nat} {xs : Bytes} {b : UInt8} (hb : b ∈ xs)
    (hv : Integer.digitValue? b = none) : ∃ f, Integer.readDigits bound acc xs = .error f := by
  induction xs generalizing acc with
  | nil => cases hb
  | cons c xs ih =>
    rcases List.mem_cons.mp hb with rfl | hb
    · exact ⟨.malformed, by simp [Integer.readDigits, hv]⟩
    · simp only [Integer.readDigits]
      cases Integer.digitValue? c with
      | none => exact ⟨_, rfl⟩
      | some d =>
        simp only
        split_ifs
        · exact ⟨_, rfl⟩
        · exact ih hb

/-- A text with a point is no integer. -/
theorem readInt64_point (neg : Bool) {W : Bytes} (hW : W ≠ [])
    (hd : ∀ b ∈ W, Code.isDigit b.toNat = true) (F : Bytes) :
    Integer.readInt64? (signOctets neg ++ W ++ 0x2E :: F) = none := by
  obtain ⟨f, hf⟩ : ∃ f, Integer.readDigits (Nat.pow 2 64 - 1) 0 (W ++ 0x2E :: F) = .error f :=
    readDigits_error_of_mem (b := 0x2E) (by simp) (by decide)
  have hne : (W ++ 0x2E :: F).isEmpty = false := by simp
  simp only [Integer.readInt64?, Integer.readSigned, splitSign_signed neg hW hd,
    Integer.readUnsigned, hne, hf]
  cases f <;> rfl

theorem readUnbounded_signed (neg : Bool) {W : Bytes} (hW : W ≠ [])
    (hd : ∀ b ∈ W, Code.isDigit b.toNat = true) (T : Bytes) :
    Integer.readUnbounded (signOctets neg ++ W ++ T) =
      (Integer.readAllDigits 0 (W ++ T)).map (signed neg) := by
  simp only [Integer.readUnbounded, splitSign_signed neg hW hd]
  rw [if_neg (by simp [hW])]
  cases Integer.readAllDigits 0 (W ++ T) <;> rfl

/-- The point lies after the sign and the digits before it. -/
theorem idxOf_point {xs : Bytes} (hx : (0x2E : UInt8) ∉ xs) (F : Bytes) :
    (xs ++ 0x2E :: F).idxOf? 0x2E = some xs.length := by
  have hnone : List.findIdx? (fun x => x == (0x2E : UInt8)) xs = none :=
    List.findIdx?_eq_none_iff.mpr (fun b hb => beq_false_of_ne (fun h => hx (h ▸ hb)))
  rw [List.idxOf?, List.findIdx?_append, hnone]
  simp [List.findIdx?_cons]

theorem point_not_mem_signed (neg : Bool) {W : Bytes}
    (hd : ∀ b ∈ W, Code.isDigit b.toNat = true) :
    (0x2E : UInt8) ∉ signOctets neg ++ W := by
  intro h
  rcases List.mem_append.mp h with h | h
  · cases neg <;> simp [signOctets] at h
  · exact (digit_ne (hd _ h)).1 rfl

theorem exponentMark_signed (neg : Bool) {W : Bytes} (hd : ∀ b ∈ W, Code.isDigit b.toNat = true)
    (b : UInt8) (hb : b ∈ signOctets neg ++ W) : Decimal.isExponentMark b = false := by
  rcases List.mem_append.mp hb with h | h
  · cases neg <;> simp_all [signOctets, Decimal.isExponentMark]
  · exact (digit_ne (hd b h)).2.2.2

/-- A sign, digits, a point and more digits read as the decimal of all the digits, scaled by the
number of digits after the point. -/
theorem readNumber_point (o : NumberOptions) (neg : Bool) {W F : Bytes} (hW : W ≠ [])
    (hWd : ∀ b ∈ W, Code.isDigit b.toNat = true)
    (hFd : ∀ b ∈ F, Code.isDigit b.toNat = true)
    {v : Nat} (hv : Integer.readAllDigits 0 (W ++ F) = some v) (hF : F.length ≤ 2147483648) :
    readNumber (signOctets neg ++ W ++ 0x2E :: F) o =
      .ok (.decimal ⟨signed neg v, -(F.length : Int)⟩) := by
  have hpt := point_not_mem_signed neg hWd
  have hnoexp : ∀ b ∈ signOctets neg ++ W ++ 0x2E :: F, Decimal.isExponentMark b = false := by
    intro b hb
    rcases List.mem_append.mp hb with hb | hb
    · exact exponentMark_signed neg hWd b hb
    · rcases List.mem_cons.mp hb with rfl | hb
      · decide
      · exact (digit_ne (hFd b hb)).2.2.2
  have hfind := List.findIdx?_eq_none_iff.mpr hnoexp
  have hany : (signOctets neg ++ W ++ 0x2E :: F).any Decimal.isExponentMark = false :=
    List.any_eq_false.mpr (fun b hb => by simp [hnoexp b hb])
  have hcount : (signOctets neg ++ W ++ 0x2E :: F).count 0x2E = 1 := by
    rw [List.count_append, List.count_eq_zero_of_not_mem hpt, List.count_cons_self,
      List.count_eq_zero_of_not_mem (fun h => (digit_ne (hFd _ h)).1 rfl)]
  have hdrop : Decimal.dropPoint (signOctets neg ++ W ++ 0x2E :: F) =
      (signOctets neg ++ W ++ F, F.length) := by
    generalize signOctets neg ++ W = xs at hpt ⊢
    simp only [Decimal.dropPoint, idxOf_point hpt, List.take_left]
    rw [← List.drop_drop, List.drop_left]
    simp only [List.drop_succ_cons, List.drop_zero, List.length_append, List.length_cons,
      Prod.mk.injEq, true_and]
    omega
  rw [readNumber, if_neg (by simp), readInt64_point neg hW hWd, hany]
  simp only [Bool.and_false, Bool.false_eq_true, ↓reduceIte, Decimal.ofText?, hfind,
    Decimal.ofCoefficient, hcount, hdrop, readUnbounded_signed neg hW hWd, hv, exponentWritten]
  have hrange : ¬(-(F.length : Int) < Decimal.minExp ∨ Decimal.maxExp < -(F.length : Int)) := by
    simp only [Decimal.minExp, Decimal.maxExp]
    omega
  simp only [Int.zero_sub, hrange, if_false]
  cases neg <;> rfl

/-- A sign and digits that are no 64-bit integer read as the decimal of the digits. -/
theorem readNumber_integral (o : NumberOptions) (neg : Bool) {W : Bytes} (hW : W ≠ [])
    (hWd : ∀ b ∈ W, Code.isDigit b.toNat = true) {v : Nat}
    (hv : Integer.readAllDigits 0 W = some v)
    (hi : Integer.readInt64? (signOctets neg ++ W) = none) :
    readNumber (signOctets neg ++ W) o = .ok (.decimal ⟨signed neg v, 0⟩) := by
  have hpt := point_not_mem_signed neg hWd
  have hfind := List.findIdx?_eq_none_iff.mpr (exponentMark_signed neg hWd)
  have hany : (signOctets neg ++ W).any Decimal.isExponentMark = false :=
    List.any_eq_false.mpr (fun b hb => by simp [exponentMark_signed neg hWd b hb])
  have hdrop : Decimal.dropPoint (signOctets neg ++ W) = (signOctets neg ++ W, 0) := by
    simp [Decimal.dropPoint, List.idxOf?_eq_none_iff.mpr hpt]
  have hread := readUnbounded_signed neg hW hWd []
  rw [List.append_nil, List.append_nil] at hread
  rw [readNumber, if_neg (by simp [hW]), hi, hany]
  simp only [Bool.and_false, Bool.false_eq_true, ↓reduceIte, Decimal.ofText?, hfind,
    Decimal.ofCoefficient, List.count_eq_zero_of_not_mem hpt, hdrop, hread, hv, exponentWritten]
  simp [Decimal.minExp, Decimal.maxExp]

end Reading

/-! ## Printed decimals -/

section Render

namespace Decimal

theorem digitChar_ne_point {d : Nat} (hd : d < 10) : Nat.digitChar d ≠ '.' := by
  revert d
  decide

/-- With a nonnegative normal exponent the plain text is a sign and the integer's digits. -/
theorem plain_nonneg {d : Decimal} (h : 0 ≤ d.normalize.exp) :
    Bytes.ofString d.plain = signOctets (decide (d.normalize.coeff < 0)) ++
      digitOctets (d.normalize.coeff.natAbs * Nat.pow 10 d.normalize.exp.toNat) := by
  simp only [plain, if_pos h]
  rw [Bytes.ofString_append, ofString_sign]
  exact congrArg _ (ofString_repr _)

/-- With a negative normal exponent the plain text is a sign, whole digits, a point and as many
fraction digits as the exponent says, all the digits together spelling the coefficient. -/
theorem plain_neg {d : Decimal} (h : d.normalize.exp < 0) :
    ∃ W F : Bytes, Bytes.ofString d.plain =
        signOctets (decide (d.normalize.coeff < 0)) ++ W ++ 0x2E :: F ∧
      W ≠ [] ∧ (∀ b ∈ W ++ F, Code.isDigit b.toNat = true) ∧
      Integer.readAllDigits 0 (W ++ F) = some d.normalize.coeff.natAbs ∧
      F.length = d.normalize.exp.natAbs := by
  have hpoint : Bytes.ofString "." = [0x2E] := by cbv
  have hzero : Nat.digitChar 0 = '0' := rfl
  simp only [plain, if_neg (not_le.mpr h), digits, toList_repr]
  set N := d.normalize
  set ds := Nat.toDigits 10 N.coeff.natAbs with hds_def
  have hds : ∀ c ∈ ds, ∃ d < 10, c = Nat.digitChar d := fun c hc => mem_toDigits hc
  have hoct : ds.map (fun c => c.val.toUInt8) = digitOctets N.coeff.natAbs := rfl
  by_cases hk : N.exp.natAbs < ds.length
  · -- the point falls inside the digits
    simp only [if_pos hk]
    refine ⟨(ds.take (ds.length - N.exp.natAbs)).map fun c => c.val.toUInt8,
      (ds.drop (ds.length - N.exp.natAbs)).map fun c => c.val.toUInt8, ?_, ?_, ?_, ?_, ?_⟩
    · rw [Bytes.ofString_append, Bytes.ofString_append, Bytes.ofString_append, ofString_sign,
        ofString_digitChars (fun c hc => hds c (List.mem_of_mem_take hc)), hpoint,
        ofString_digitChars (fun c hc => hds c (List.mem_of_mem_drop hc))]
      simp
    · have hne : ds ≠ [] := List.ne_nil_of_length_pos (by omega)
      simp [hne]
      omega
    · rw [← List.map_append, List.take_append_drop, hoct]
      exact fun b hb => digit_of_mem_digitOctets hb
    · rw [← List.map_append, List.take_append_drop, hoct, readAllDigits_digits]
    · simp
      omega
  · -- the point comes first: a zero before it and zeros padding the fraction
    simp only [if_neg hk]
    refine ⟨[0x30], List.replicate (N.exp.natAbs - ds.length) 0x30 ++
      digitOctets N.coeff.natAbs, ?_, ?_, ?_, ?_, ?_⟩
    · have hz : ∀ c ∈ ['0'], ∃ d < 10, c = Nat.digitChar d := by simp
      have hr : ∀ c ∈ List.replicate (N.exp.natAbs - ds.length) '0' ++ ds,
          ∃ d < 10, c = Nat.digitChar d := by
        intro c hc
        rcases List.mem_append.mp hc with hc | hc
        · exact ⟨0, by norm_num, (List.eq_of_mem_replicate hc).trans hzero.symm⟩
        · exact hds c hc
      rw [Bytes.ofString_append, Bytes.ofString_append, Bytes.ofString_append, ofString_sign,
        ofString_digitChars hz, hpoint, ofString_digitChars hr]
      simp only [List.map_cons, List.map_nil, List.map_append, List.map_replicate, hoct,
        List.append_assoc, List.cons_append]
      rfl
    · simp
    · intro b hb
      simp only [List.cons_append, List.nil_append, List.mem_cons, List.mem_append,
        List.mem_replicate] at hb
      rcases hb with rfl | ⟨-, rfl⟩ | hb
      · rfl
      · rfl
      · exact digit_of_mem_digitOctets hb
    · rw [List.singleton_append, ← List.cons_append, ← List.replicate_succ,
        readAllDigits_zeros,
        readAllDigits_digits]
    · have hlen : (digitOctets N.coeff.natAbs).length = ds.length := by
        rw [← hoct, List.length_map]
      simp only [List.length_append, List.length_replicate, hlen]
      omega

/-- The plain text has a point exactly when the normal exponent is negative. -/
theorem plain_contains_point (d : Decimal) :
    d.plain.contains '.' = decide (d.normalize.exp < 0) := by
  by_cases h : 0 ≤ d.normalize.exp
  · simp only [plain, if_pos h, String.contains_char_eq, String.toList_append, toList_repr,
      List.mem_append, decide_eq_decide, not_lt.mpr h, iff_false, not_or]
    constructor
    · split_ifs <;> decide
    · intro hc
      obtain ⟨k, hk, hkc⟩ := mem_toDigits hc
      exact digitChar_ne_point hk hkc.symm
  · simp [plain, if_neg h, String.contains_char_eq, not_le.mp h]

/-- An integral decimal is printed as its plain text, with `.0` after it when the plain text
would read as a 64-bit integer. -/
theorem render_nonneg {d : Decimal} (h : 0 ≤ d.normalize.exp) :
    Bytes.ofString d.render =
      Bytes.ofString d.plain ++ if readsAsInteger d.plain then [0x2E, 0x30] else [] := by
  have hpt : d.plain.contains '.' = false := by
    rw [plain_contains_point]
    exact decide_eq_false (not_lt.mpr h)
  simp only [render, hpt, Bool.false_eq_true, if_false]
  split_ifs
  · have hzero : Bytes.ofString ".0" = [0x2E, 0x30] := by cbv
    rw [Bytes.ofString_append, hzero]
  · rw [List.append_nil]

/-- A decimal with a fraction is printed as its plain text, which has the point. -/
theorem render_neg {d : Decimal} (h : d.normalize.exp < 0) : d.render = d.plain := by
  have hpt : d.plain.contains '.' = true := by
    rw [plain_contains_point]
    exact decide_eq_true h
  simp only [render, hpt, if_true]

/-- A decimal with a nonnegative normal exponent is its integer digits, and scaling those down
by a power of ten moves the exponent back. -/
theorem normalize_digits {d : Decimal} (h : 0 ≤ d.normalize.exp) (j : Nat) :
    normalize ⟨signed (decide (d.normalize.coeff < 0))
      (d.normalize.coeff.natAbs * Nat.pow 10 d.normalize.exp.toNat) * 10 ^ j, -(j : Int)⟩ =
      normalize d := by
  rw [normalize_scale, signed_mul, signed_natAbs, Nat.pow_eq, Nat.cast_pow, Nat.cast_ofNat,
    normalize_scale]
  have hE : -(j : Int) + j + (d.normalize.exp.toNat : Int) = d.normalize.exp := by omega
  rw [hE]
  exact normalize_normalize d

/-- The printed text of a decimal reads back as a decimal of the same value, provided its
exponent fits 32 bits. -/
theorem readNumber_render (o : NumberOptions) {d : Decimal} (hd : minExp ≤ d.exp) :
    ∃ d', readNumber (Bytes.ofString d.render) o = .ok (.decimal d') ∧
      d'.normalize = d.normalize := by
  by_cases h : 0 ≤ d.normalize.exp
  · set m := d.normalize.coeff.natAbs * Nat.pow 10 d.normalize.exp.toNat with hm
    have hWd : ∀ b ∈ digitOctets m, Code.isDigit b.toNat = true :=
      fun b hb => digit_of_mem_digitOctets hb
    rw [render_nonneg h, plain_nonneg h]
    split_ifs with hint
    · -- an integral text that would read as an integer gets `.0`, one more fraction digit
      have hv : Integer.readAllDigits 0 (digitOctets m ++ [0x30]) = some (m * 10 ^ 1) := by
        rw [readAllDigits_append, readAllDigits_digits]
        simp [Integer.readAllDigits, Integer.digitValue?]
      have hread := readNumber_point o (decide (d.normalize.coeff < 0)) (digitOctets_ne_nil m)
        hWd (by simp [Code.isDigit]) hv (by decide)
      refine ⟨_, hread, ?_⟩
      rw [signed_mul, Nat.cast_pow, Nat.cast_ofNat]
      exact normalize_digits h 1
    · have hi : Integer.readInt64? (signOctets (decide (d.normalize.coeff < 0)) ++ digitOctets m)
          = none := by
        rw [readsAsInteger, plain_nonneg h, ← hm] at hint
        simpa using hint
      rw [List.append_nil]
      refine ⟨_, readNumber_integral o _ (digitOctets_ne_nil m) hWd (readAllDigits_digits m) hi,
        ?_⟩
      have hn := normalize_digits h 0
      rw [pow_zero, mul_one, Nat.cast_zero, neg_zero] at hn
      exact hn
  · have hneg := not_le.mp h
    have hc : d.coeff ≠ 0 := fun hc => by
      rw [normalize_of_coeff_zero hc] at hneg
      exact absurd hneg (by decide)
    have hle := le_normalize_exp hc
    obtain ⟨W, F, hs, hW, hdig, hv, hF⟩ := plain_neg hneg
    rw [render_neg hneg]
    have hread := readNumber_point o (decide (d.normalize.coeff < 0)) hW
      (fun b hb => hdig b (List.mem_append_left F hb))
      (fun b hb => hdig b (List.mem_append_right W hb)) hv
      (by simp only [minExp] at hd; omega)
    refine ⟨_, hs ▸ hread, ?_⟩
    rw [signed_natAbs, hF, show -(d.normalize.exp.natAbs : Int) = d.normalize.exp by omega]
    exact normalize_normalize d

/-- Every printed decimal is a sign, then digits, then digits and points. -/
theorem render_shape (d : Decimal) :
    ∃ W T : Bytes,
      Bytes.ofString d.render = signOctets (decide (d.normalize.coeff < 0)) ++ W ++ T ∧
      W ≠ [] ∧ ∀ b ∈ W ++ T, Code.isDigit b.toNat = true ∨ b = 0x2E := by
  by_cases h : 0 ≤ d.normalize.exp
  · have hWd : ∀ m, ∀ b ∈ digitOctets m, Code.isDigit b.toNat = true ∨ b = 0x2E :=
      fun _ _ hb => Or.inl (digit_of_mem_digitOctets hb)
    rw [render_nonneg h, plain_nonneg h]
    split_ifs
    · refine ⟨_, [0x2E, 0x30], rfl, digitOctets_ne_nil _, fun b hb => ?_⟩
      rcases List.mem_append.mp hb with hb | hb
      · exact hWd _ b hb
      · simp only [List.mem_cons, List.not_mem_nil, or_false] at hb
        rcases hb with rfl | rfl
        · exact Or.inr rfl
        · exact Or.inl rfl
    · exact ⟨_, [], rfl, digitOctets_ne_nil _, fun b hb => hWd _ b (by simpa using hb)⟩
  · obtain ⟨W, F, hs, hW, hdig, -, -⟩ := plain_neg (not_le.mp h)
    rw [render_neg (not_le.mp h)]
    refine ⟨W, 0x2E :: F, hs, hW, fun b hb => ?_⟩
    simp only [List.mem_append, List.mem_cons] at hb
    rcases hb with hb | rfl | hb
    · exact Or.inl (hdig b (List.mem_append_left F hb))
    · exact Or.inr rfl
    · exact Or.inl (hdig b (List.mem_append_right W hb))

end Decimal

/-- The text of an integer is its sign and the digits of its magnitude. -/
theorem ofInt_eq (n : Int) :
    Bytes.ofInt n = signOctets (decide (n < 0)) ++ digitOctets n.natAbs := by
  rcases n with m | m
  · rw [Int.ofNat_eq_natCast, ofInt_natCast]
    simp [signOctets]
  · rw [ofInt_negSucc]
    simp [signOctets, Int.negSucc_lt_zero]

/-- A sign, digits, then digits and points: a nonempty text each of whose octets can start a
numeric run. -/
theorem numberStart_of_shape {s W T : Bytes} (neg : Bool) (hs : s = signOctets neg ++ W ++ T)
    (hW : W ≠ []) (hd : ∀ b ∈ W ++ T, Code.isDigit b.toNat = true ∨ b = 0x2E) :
    s ≠ [] ∧ ∀ b ∈ s, Code.isNumberStart b.toNat = true := by
  subst hs
  refine ⟨by simp [hW], fun b hb => ?_⟩
  rw [List.append_assoc, List.mem_append] at hb
  rcases hb with hb | hb
  · cases neg <;> simp_all [signOctets, Code.isNumberStart]
  · rcases hd b hb with hb | rfl
    · simp [Code.isNumberStart, hb]
    · decide

theorem render_numberStart (d : Decimal) :
    Bytes.ofString d.render ≠ [] ∧
      ∀ b ∈ Bytes.ofString d.render, Code.isNumberStart b.toNat = true := by
  obtain ⟨W, T, hs, hW, hd⟩ := d.render_shape
  exact numberStart_of_shape _ hs hW hd

theorem ofInt_numberStart (n : Int) :
    Bytes.ofInt n ≠ [] ∧ ∀ b ∈ Bytes.ofInt n, Code.isNumberStart b.toNat = true :=
  numberStart_of_shape _ (by rw [ofInt_eq, List.append_nil]) (digitOctets_ne_nil _)
    (fun b hb => Or.inl (digit_of_mem_digitOctets (by simpa using hb)))

end Render

end ExactJson
