import Mathlib
import ExactJson.Proofs.NumberSyntax

/-!
# How long a read number is when printed again

A number the reader takes is printed again as its own text: a 64-bit integer as its digits, a
decimal as `Decimal.render`. The printed text can be longer than the run it was read from, but
not by much: it is at most two octets longer than the run and the magnitude of the exponent
written in it (`readNumber_text_length`), so a run with no exponent mark prints within two
octets of itself. The two octets are attained: `.-05` is read as `-0.005`.

The bound follows the shape of the printed text. With a nonnegative normal exponent it is the
digits of an integer, at most as many as the run's digits and the positive part of the
exponent, and perhaps `.0`; with a negative one it is the coefficient's digits or the zeros the
exponent asks for, whichever are more, around a point (`Decimal.length_render_le`). The run, in
turn, spells at least as many octets as its sign and its digits, and as its sign and the digits
after its point (`Grammar.LooseMantissa.length_le`).
-/

namespace ExactJson

open Grammar

/-! ## Digits -/

section Digits

/-- Digits read after `acc` spell less than `acc + 1` shifted by as many places. -/
theorem digitsFrom_lt {s : Bytes} (h : AllDigits s) (acc : Nat) :
    digitsFrom acc s < (acc + 1) * 10 ^ s.length := by
  induction s generalizing acc with
  | nil => simp [digitsFrom]
  | cons b s ih =>
    have hb : b.toNat - 48 < 10 := by
      have hd := (allDigits_cons.mp h).1
      simp only [Code.isDigit, Bool.and_eq_true, decide_eq_true_eq] at hd
      omega
    have hs := ih (allDigits_cons.mp h).2 (acc * 10 + (b.toNat - 48))
    rw [digitsFrom_cons, List.length_cons, pow_succ]
    calc digitsFrom (acc * 10 + (b.toNat - 48)) s
        < (acc * 10 + (b.toNat - 48) + 1) * 10 ^ s.length := hs
      _ ≤ (acc + 1) * (10 ^ s.length * 10) := by nlinarith [Nat.one_le_two_pow (n := s.length)]

theorem digitsValue_lt {s : Bytes} (h : AllDigits s) : digitsValue s < 10 ^ s.length := by
  have h0 := digitsFrom_lt h 0
  rwa [zero_add, one_mul] at h0

/-- A number below `10 ^ n` has at most `n` digits. -/
theorem length_digitOctets_le {m n : Nat} (hn : 0 < n) (h : m < 10 ^ n) :
    (digitOctets m).length ≤ n := by
  rw [digitOctets, List.length_map]
  exact (Nat.length_toDigits_le_iff (by norm_num) hn).mpr h

/-- A sign text is at least as long as the minus it stands for. -/
theorem Grammar.SignText.length_signOctets {t : Bytes} {neg : Bool} (h : SignText t neg) :
    (signOctets neg).length ≤ t.length := by
  cases h <;> simp [signOctets]

/-- A number spelled with a sign is negative only when the sign is a minus. -/
theorem length_signOctets_signed (neg : Bool) (m : Nat) :
    (signOctets (decide (signed neg m < 0))).length ≤ (signOctets neg).length := by
  cases neg with
  | false => simp [signOctets, signed]
  | true =>
    unfold signOctets
    split <;> simp

end Digits

/-! ## Printed decimals -/

namespace Decimal

/-- `stripZeros` only takes trailing zeros off: the coefficient it leaves, shifted back by the
places it raised the exponent, is the one it started with. -/
theorem stripZeros_mul (c e : Int) :
    (stripZeros c e).1 * 10 ^ ((stripZeros c e).2 - e).toNat = c := by
  fun_induction stripZeros c e with
  | case1 c e h ih =>
    have hle := (stripZeros_spec (c / 10) (e + 1)).2.2
    have hk : ((stripZeros (c / 10) (e + 1)).2 - e).toNat =
        ((stripZeros (c / 10) (e + 1)).2 - (e + 1)).toNat + 1 := by omega
    rw [hk, pow_succ, ← mul_assoc, ih]
    exact Int.ediv_mul_cancel (Int.dvd_of_emod_eq_zero h.2)
  | case2 c e h => simp

/-- The normal form of a nonzero decimal is its coefficient with the trailing zeros taken off. -/
theorem normalize_mul {d : Decimal} (hc : d.coeff ≠ 0) :
    d.normalize.coeff * 10 ^ (d.normalize.exp - d.exp).toNat = d.coeff := by
  simp only [normalize, if_neg hc]
  exact stripZeros_mul d.coeff d.exp

theorem natAbs_normalize_mul {d : Decimal} (hc : d.coeff ≠ 0) :
    d.normalize.coeff.natAbs * 10 ^ (d.normalize.exp - d.exp).toNat = d.coeff.natAbs := by
  have h := congrArg Int.natAbs (normalize_mul hc)
  rwa [Int.natAbs_mul, Int.natAbs_pow] at h

theorem normalize_neg_iff (d : Decimal) : d.normalize.coeff < 0 ↔ d.coeff < 0 := by
  by_cases hc : d.coeff = 0
  · simp [normalize_of_coeff_zero hc, hc]
  · have hpos : (0 : Int) < 10 ^ (d.normalize.exp - d.exp).toNat := by positivity
    conv_rhs => rw [← normalize_mul hc]
    constructor
    · intro h
      exact Int.mul_neg_of_neg_of_pos h hpos
    · intro h
      by_contra hn
      have := Int.mul_nonneg (not_lt.mp hn) hpos.le
      omega

/-- With a negative normal exponent the plain text is a sign, a point, and the coefficient's
digits or the zeros the exponent asks for and one before the point, whichever are more. -/
theorem length_plain_neg {d : Decimal} (h : d.normalize.exp < 0) :
    (Bytes.ofString d.plain).length = (signOctets (decide (d.normalize.coeff < 0))).length +
      max (Nat.toDigits 10 d.normalize.coeff.natAbs).length (d.normalize.exp.natAbs + 1) + 1 := by
  have hpoint : Bytes.ofString "." = [0x2E] := by cbv
  simp only [plain, if_neg (not_le.mpr h), digits, toList_repr]
  set N := d.normalize
  set ds := Nat.toDigits 10 N.coeff.natAbs
  have hds : ∀ c ∈ ds, ∃ d < 10, c = Nat.digitChar d := fun c hc => mem_toDigits hc
  by_cases hk : N.exp.natAbs < ds.length
  · -- the point falls inside the digits
    simp only [if_pos hk]
    rw [Bytes.ofString_append, Bytes.ofString_append, Bytes.ofString_append, ofString_sign,
      ofString_digitChars (fun c hc => hds c (List.mem_of_mem_take hc)), hpoint,
      ofString_digitChars (fun c hc => hds c (List.mem_of_mem_drop hc))]
    simp only [List.length_append, List.length_map, List.length_take, List.length_drop,
      List.length_singleton]
    omega
  · -- a zero before the point, and zeros padding the fraction
    simp only [if_neg hk]
    have hz : ∀ c ∈ ['0'], ∃ d < 10, c = Nat.digitChar d := by simp
    have hr : ∀ c ∈ List.replicate (N.exp.natAbs - ds.length) '0' ++ ds,
        ∃ d < 10, c = Nat.digitChar d := by
      intro c hc
      rcases List.mem_append.mp hc with hc | hc
      · exact ⟨0, by norm_num, List.eq_of_mem_replicate hc⟩
      · exact hds c hc
    rw [Bytes.ofString_append, Bytes.ofString_append, Bytes.ofString_append, ofString_sign,
      ofString_digitChars hz, hpoint, ofString_digitChars hr]
    simp only [List.length_append, List.length_map, List.length_replicate, List.length_singleton]
    omega

/-- Normalizing takes trailing zeros off the coefficient and adds no digit. -/
theorem natAbs_normalize_le (d : Decimal) : d.normalize.coeff.natAbs ≤ d.coeff.natAbs := by
  by_cases h0 : d.coeff = 0
  · simp [normalize_of_coeff_zero h0]
  · rw [← natAbs_normalize_mul h0]
    exact Nat.le_mul_of_pos_right _ (by positivity)

/-- With a nonnegative normal exponent a decimal is an integer with no more digits than its
coefficient has and its exponent adds. -/
theorem integral_lt {d : Decimal} {L : Nat} (h : 0 ≤ d.normalize.exp)
    (hc : d.coeff.natAbs < 10 ^ L) :
    d.normalize.coeff.natAbs * Nat.pow 10 d.normalize.exp.toNat < 10 ^ (L + d.exp.toNat) := by
  by_cases h0 : d.coeff = 0
  · simp [normalize_of_coeff_zero h0]
  · -- the integer, shifted by a negative exponent, is the coefficient shifted by a positive one
    have hle := le_normalize_exp h0
    have hsplit : d.normalize.exp.toNat + (-d.exp).toNat =
        (d.normalize.exp - d.exp).toNat + d.exp.toNat := by omega
    calc d.normalize.coeff.natAbs * Nat.pow 10 d.normalize.exp.toNat
        ≤ d.normalize.coeff.natAbs * Nat.pow 10 d.normalize.exp.toNat * 10 ^ (-d.exp).toNat :=
          Nat.le_mul_of_pos_right _ (by positivity)
      _ = d.normalize.coeff.natAbs * 10 ^ (d.normalize.exp.toNat + (-d.exp).toNat) := by
          rw [Nat.pow_eq, pow_add, mul_assoc]
      _ = d.normalize.coeff.natAbs * 10 ^ (d.normalize.exp - d.exp).toNat * 10 ^ d.exp.toNat := by
          rw [hsplit, pow_add, mul_assoc]
      _ = d.coeff.natAbs * 10 ^ d.exp.toNat := by rw [natAbs_normalize_mul h0]
      _ < 10 ^ L * 10 ^ d.exp.toNat := Nat.mul_lt_mul_of_pos_right hc (by positivity)
      _ = 10 ^ (L + d.exp.toNat) := (pow_add _ _ _).symm

/-- **The printed text of a decimal is short.** For a coefficient of at most `L` digits it is at
most a sign, two octets, and the `L` digits shifted by a positive exponent or the places a
negative exponent asks for, whichever are more. -/
theorem length_render_le (d : Decimal) {L : Nat} (hL : 0 < L) (hc : d.coeff.natAbs < 10 ^ L) :
    (Bytes.ofString d.render).length ≤ (signOctets (decide (d.coeff < 0))).length + 2 +
      max (L + d.exp.toNat) (-d.exp).toNat := by
  have hsign : decide (d.normalize.coeff < 0) = decide (d.coeff < 0) :=
    decide_eq_decide.mpr (normalize_neg_iff d)
  by_cases h : 0 ≤ d.normalize.exp
  · -- the digits of an integer, and perhaps `.0`
    have hdig := length_digitOctets_le (by omega) (integral_lt h hc)
    have htail : (if readsAsInteger d.plain then [(0x2E : UInt8), 0x30] else []).length ≤ 2 := by
      split_ifs <;> simp
    rw [render_nonneg h, plain_nonneg h, hsign, List.length_append, List.length_append]
    omega
  · -- digits around a point: no more than the coefficient's, or than the exponent asks for
    have hneg := not_le.mp h
    have h0 : d.coeff ≠ 0 := fun h0 => by
      rw [normalize_of_coeff_zero h0] at hneg
      exact absurd hneg (by decide)
    have hle := le_normalize_exp h0
    have hds : (Nat.toDigits 10 d.normalize.coeff.natAbs).length ≤ L :=
      (Nat.length_toDigits_le_iff (by norm_num) hL).mpr
        (lt_of_le_of_lt (natAbs_normalize_le d) hc)
    rw [render_neg hneg, length_plain_neg hneg, hsign]
    omega

end Decimal

/-! ## Runs -/

/-- A mantissa the reader takes spells its sign and at least one digit, and at least its sign
and the octets it counts after its point. -/
theorem Grammar.LooseMantissa.length_le {m : Bytes} {neg : Bool} {v f : Nat}
    (h : LooseMantissa m neg v f) :
    ∃ L, 0 < L ∧ v < 10 ^ L ∧ (signOctets neg).length + L ≤ m.length ∧
      (signOctets neg).length + f ≤ m.length := by
  cases h with
  | text hm =>
    cases hm with
    | @whole t W _ ht hW =>
      have hs := ht.length_signOctets
      refine ⟨W.length, List.length_pos_iff.mpr hW.1, digitsValue_lt hW.2, ?_, ?_⟩ <;>
        simp only [List.length_append] <;> omega
    | @point t W F _ ht hW hF hne =>
      have hs := ht.length_signOctets
      have hpos : 0 < (W ++ F).length := List.length_pos_iff.mpr hne
      refine ⟨(W ++ F).length, hpos, digitsValue_lt (allDigits_append.mpr ⟨hW, hF⟩), ?_, ?_⟩ <;>
        simp only [List.length_append, List.length_cons] at hpos ⊢ <;> omega
  | @signAfterPoint t F _ ht _ hF =>
    have hs := ht.length_signOctets
    have ht1 := ht.length_le
    refine ⟨F.length, List.length_pos_iff.mpr hF.1, digitsValue_lt hF.2, ?_, ?_⟩ <;>
      simp only [List.length_append, List.length_cons] <;> omega

/-- Integer text prints again at most as long as it is: a leading `+` or leading zeros go. -/
theorem Grammar.IntegerText.length_ofInt {s : Bytes} {z : Int} (h : IntegerText s z) :
    (Bytes.ofInt z).length ≤ s.length := by
  obtain ⟨t, W, neg, rfl, ht, hW, rfl⟩ := h
  have hs := ht.length_signOctets
  have hsign := length_signOctets_signed neg (digitsValue W)
  have hmag : (signed neg (digitsValue W)).natAbs = digitsValue W := by
    cases neg <;> simp [signed]
  have hdig := length_digitOctets_le (List.length_pos_iff.mpr hW.1) (digitsValue_lt hW.2)
  rw [ofInt_eq, hmag, List.length_append, List.length_append]
  omega

/-- The decimal a readable run spells prints within two octets of the run and the magnitude of
its written exponent. -/
theorem Grammar.ReadableText.length_render {raw : Bytes} {w : Numeral} (hw : ReadableText raw w) :
    (Bytes.ofString w.decimal.render).length ≤ raw.length + 2 + w.exp.natAbs := by
  obtain ⟨m, x, rfl, hm, -⟩ := hw
  obtain ⟨L, hL, hv, hsL, hsf⟩ := hm.length_le
  have hmag : (signed w.neg w.digits).natAbs = w.digits := by
    cases w.neg <;> simp [signed]
  -- the decimal's coefficient is the signed digits, its exponent the written one less the scale
  have hr : (Bytes.ofString w.decimal.render).length ≤
      (signOctets (decide (signed w.neg w.digits < 0))).length + 2 +
        max (L + (w.exp - w.scale).toNat) (-(w.exp - w.scale)).toNat :=
    Decimal.length_render_le w.decimal hL (by rw [Numeral.decimal, hmag]; exact hv)
  have hsign := length_signOctets_signed w.neg w.digits
  rw [List.length_append]
  omega

/-- A readable run with no exponent mark has exponent zero. -/
theorem Grammar.ReadableText.exp_of_no_mark {raw : Bytes} {w : Numeral} (hw : ReadableText raw w)
    (he : (0x65 : UInt8) ∉ raw) (hE : (0x45 : UInt8) ∉ raw) : w.exp = 0 := by
  obtain ⟨neg, v, f, ex⟩ := w
  obtain ⟨m, x, rfl, -, hx⟩ := hw
  cases hx with
  | none => rfl
  | @mark b E _ hb _ =>
    have hmem : b ∈ m ++ b :: E := List.mem_append_right m List.mem_cons_self
    simp only [Decimal.isExponentMark, Bool.or_eq_true, decide_eq_true_eq] at hb
    rcases hb with rfl | rfl
    · exact absurd hmem he
    · exact absurd hmem hE

/-- **A read number prints short.** When the reader takes a run, the text of the number it reads
is at most two octets longer than the run and the exponent bound in force, and at most two
octets longer than the run when the run has no exponent mark. -/
theorem readNumber_text_length (raw : Bytes) (o : NumberOptions) (x : Number)
    (h : readNumber raw o = .ok x) :
    (Bytes.ofString x.text).length ≤ raw.length + o.limit + 2 ∧
      ((0x65 : UInt8) ∉ raw → (0x45 : UInt8) ∉ raw →
        (Bytes.ofString x.text).length ≤ raw.length + 2) := by
  obtain ⟨w, hw, -, -, hb⟩ := readable_of_readNumber_ok h
  -- both kinds of number print within two octets of the run past the written exponent
  have hlen : (Bytes.ofString x.text).length ≤ raw.length + 2 + w.exp.natAbs := by
    cases x with
    | integer n =>
      have hi := (readNumber_eq_ok_integer.mp h).length_ofInt
      show (Bytes.ofInt n.toInt).length ≤ _
      omega
    | decimal d =>
      rw [Number.text, readNumber_eq_decimal h hw]
      exact hw.length_render
  refine ⟨by unfold Numeral.Bounded at hb; omega, fun he hE => ?_⟩
  rw [hw.exp_of_no_mark he hE] at hlen
  simpa using hlen

theorem readNumber_text_length_signAfterPoint :
    readNumber [0x2E, 0x2D, 0x30, 0x35] {} = .ok (.decimal ⟨-5, -3⟩) ∧
      (Bytes.ofString (Number.decimal ⟨-5, -3⟩).text).length ≤ 4 + 2 := by
  have h : readNumber [0x2E, 0x2D, 0x30, 0x35] {} = .ok (.decimal ⟨-5, -3⟩) := rfl
  exact ⟨h, (readNumber_text_length _ _ _ h).2 (by decide) (by decide)⟩

end ExactJson
