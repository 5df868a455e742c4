import Mathlib
import ExactJson.Proofs.NumberText

/-!
# Decimals are printed canonically

A decimal `coeff × 10 ^ exp` stands for a rational number, its `value`. The text a decimal is
printed as, `Decimal.render`, depends on that value alone and tells it back: two decimals print
alike exactly when they have the same value (`render_eq_iff`). The number reader inverts the
printing: the text of a decimal reads back as a decimal of the same value, never as an integer,
whatever the number options, and the text of a 64-bit integer reads back as that integer
(`render_canonical`).

The value can be read off the text with no bound on the exponent: with the point taken out, the
text is the normal coefficient's digits, and the octets that followed the point count its
negative exponent (`render_digits`). That is what makes the printing injective on values.
-/

namespace ExactJson

namespace Decimal

/-- The rational number a decimal stands for. -/
def value (d : Decimal) : ℚ := d.coeff * 10 ^ d.exp

/-- A decimal in normal form: zero is `0 × 10⁰`, and any other coefficient has no trailing
zero. -/
def IsNormal (d : Decimal) : Prop := (d.coeff = 0 ∧ d.exp = 0) ∨ (d.coeff ≠ 0 ∧ d.coeff % 10 ≠ 0)

theorem stripZeros_value (c e : Int) :
    ((stripZeros c e).1 : ℚ) * 10 ^ (stripZeros c e).2 = c * 10 ^ e := by
  fun_induction stripZeros c e with
  | case1 c e h ih =>
    rw [ih]
    have hc : (c : ℚ) = ((c / 10 : Int) : ℚ) * 10 := by
      have hdiv := Int.ediv_mul_cancel (Int.dvd_of_emod_eq_zero h.2)
      exact_mod_cast hdiv.symm
    rw [hc, zpow_add_one₀ (by norm_num)]
    ring
  | case2 c e h => rfl

theorem normalize_of_coeff_ne_zero {d : Decimal} (hc : d.coeff ≠ 0) :
    d.normalize = ⟨(stripZeros d.coeff d.exp).1, (stripZeros d.coeff d.exp).2⟩ := by
  simp [normalize, hc]

@[simp] theorem value_normalize (d : Decimal) : d.normalize.value = d.value := by
  by_cases hc : d.coeff = 0
  · simp [normalize_of_coeff_zero hc, value, hc]
  · rw [normalize_of_coeff_ne_zero hc]
    exact stripZeros_value d.coeff d.exp

theorem isNormal_normalize (d : Decimal) : d.normalize.IsNormal := by
  by_cases hc : d.coeff = 0
  · exact .inl (by simp [normalize_of_coeff_zero hc])
  · obtain ⟨hzero, hne, -⟩ := stripZeros_spec d.coeff d.exp
    rw [normalize_of_coeff_ne_zero hc]
    exact .inr ⟨hne hc, fun h10 => hzero ⟨hne hc, h10⟩⟩

/-- Two normal decimals of the same value are the same decimal: were one exponent lower, its
coefficient would end in a zero. -/
theorem IsNormal.eq_of_value_eq {a b : Decimal} (ha : a.IsNormal) (hb : b.IsNormal)
    (h : a.value = b.value) : a = b := by
  wlog hle : a.exp ≤ b.exp generalizing a b
  · exact (this hb ha h.symm (le_of_not_ge hle)).symm
  obtain ⟨k, hk⟩ : ∃ k : Nat, b.exp = a.exp + k := ⟨(b.exp - a.exp).toNat, by omega⟩
  have hcoeff : a.coeff = b.coeff * 10 ^ k := by
    have hq : (a.coeff : ℚ) * 10 ^ a.exp = (b.coeff * 10 ^ k : Int) * 10 ^ a.exp := by
      rw [show (a.coeff : ℚ) * 10 ^ a.exp = a.value from rfl, h, value, hk,
        zpow_add₀ (by norm_num), zpow_natCast]
      push_cast
      ring
    exact_mod_cast mul_right_cancel₀ (zpow_ne_zero _ (by norm_num)) hq
  cases k with
  | zero =>
    cases a
    cases b
    simp_all
  | succ j =>
    -- the coefficient of the lower exponent ends in a zero, so it is zero, and so is the other
    have h10 : a.coeff % 10 = 0 := by
      rw [hcoeff, pow_succ, ← mul_assoc]
      simp
    rcases ha with ⟨ha0, ha1⟩ | ⟨-, ha⟩
    · have hb0 : b.coeff = 0 := by
        rw [ha0] at hcoeff
        exact (mul_eq_zero.mp hcoeff.symm).resolve_right (pow_ne_zero _ (by norm_num))
      rcases hb with ⟨-, hb1⟩ | ⟨hb, -⟩
      · omega
      · exact absurd hb0 hb
    · exact absurd h10 ha

theorem sameValue_iff {a b : Decimal} : a.sameValue b = true ↔ a.value = b.value := by
  constructor
  · intro h
    have hn : a.normalize = b.normalize := by simpa [sameValue] using h
    rw [← value_normalize a, hn, value_normalize]
  · intro h
    have hn := (isNormal_normalize a).eq_of_value_eq (isNormal_normalize b) (by simp [h])
    simp [sameValue, hn]

theorem render_eq_of_normalize_eq {a b : Decimal} (h : a.normalize = b.normalize) :
    a.render = b.render := by
  have hplain : a.plain = b.plain := by simp only [plain, h]
  simp only [render, hplain]

/-! ## The value in the text -/

theorem dropPoint_of_not_mem {s : Bytes} (h : (0x2E : UInt8) ∉ s) : dropPoint s = (s, 0) := by
  simp [dropPoint, List.idxOf?_eq_none_iff.mpr h]

theorem dropPoint_point {xs : Bytes} (hx : (0x2E : UInt8) ∉ xs) (F : Bytes) :
    dropPoint (xs ++ 0x2E :: F) = (xs ++ F, F.length) := by
  simp only [dropPoint, idxOf_point hx, List.take_left]
  rw [← List.drop_drop, List.drop_left]
  simp only [List.drop_succ_cons, List.drop_zero, List.length_append, List.length_cons,
    Prod.mk.injEq, true_and]
  omega

/-- With its point taken out, the text of a decimal reads as an integer, which scaled down by the
number of octets that followed the point has the decimal's normal form. -/
theorem render_digits (d : Decimal) :
    ∃ c : Int, Integer.readUnbounded (dropPoint (Bytes.ofString d.render)).1 = some c ∧
      normalize ⟨c, -((dropPoint (Bytes.ofString d.render)).2 : Int)⟩ = d.normalize := by
  set neg := decide (d.normalize.coeff < 0)
  by_cases h : 0 ≤ d.normalize.exp
  · set m := d.normalize.coeff.natAbs * Nat.pow 10 d.normalize.exp.toNat
    have hWd : ∀ b ∈ digitOctets m, Code.isDigit b.toNat = true :=
      fun b hb => digit_of_mem_digitOctets hb
    have hpt := point_not_mem_signed neg hWd
    rw [render_nonneg h, plain_nonneg h]
    split_ifs
    · -- `.0` was added: one digit after the point
      rw [show signOctets neg ++ digitOctets m ++ [0x2E, 0x30] =
          (signOctets neg ++ digitOctets m) ++ 0x2E :: [0x30] by simp, dropPoint_point hpt]
      refine ⟨signed neg (m * 10 ^ 1), ?_, ?_⟩
      · rw [readUnbounded_signed neg (digitOctets_ne_nil m) hWd, readAllDigits_append,
          readAllDigits_digits]
        simp [Integer.readAllDigits, Integer.digitValue?]
      · rw [signed_mul, Nat.cast_pow, Nat.cast_ofNat]
        exact normalize_digits h 1
    · rw [List.append_nil, dropPoint_of_not_mem hpt]
      refine ⟨signed neg m, ?_, ?_⟩
      · have hread := readUnbounded_signed neg (digitOctets_ne_nil m) hWd []
        rw [List.append_nil, List.append_nil, readAllDigits_digits] at hread
        exact hread
      · have hn := normalize_digits h 0
        rw [pow_zero, mul_one, Nat.cast_zero, neg_zero] at hn
        exact hn
  · have hneg := not_le.mp h
    obtain ⟨W, F, hs, hW, hdig, hv, hF⟩ := plain_neg hneg
    have hWd : ∀ b ∈ W, Code.isDigit b.toNat = true := fun b hb => hdig b (List.mem_append_left F hb)
    rw [render_neg hneg, hs, dropPoint_point (point_not_mem_signed neg hWd)]
    refine ⟨d.normalize.coeff, ?_, ?_⟩
    · rw [List.append_assoc, ← List.append_assoc (signOctets neg),
        readUnbounded_signed neg hW hWd, hv]
      exact congrArg some (signed_natAbs _)
    · rw [hF, show -(d.normalize.exp.natAbs : Int) = d.normalize.exp by omega]
      exact normalize_normalize d

theorem normalize_eq_of_render_eq {a b : Decimal} (h : a.render = b.render) :
    a.normalize = b.normalize := by
  obtain ⟨ca, hca, hna⟩ := render_digits a
  obtain ⟨cb, hcb, hnb⟩ := render_digits b
  rw [h, hcb, Option.some.injEq] at hca
  rw [← hna, ← hnb, h, hca]

/-- Two decimals are printed alike exactly when they have the same value. -/
theorem render_eq_iff {a b : Decimal} : a.render = b.render ↔ a.value = b.value := by
  rw [← sameValue_iff]
  constructor
  · intro h
    simp [sameValue, normalize_eq_of_render_eq h]
  · intro h
    exact render_eq_of_normalize_eq (by simpa [sameValue] using h)

end Decimal

open Decimal

/-- **Printing numbers is canonical and reads back.** Decimals are printed alike exactly when
they are numerically equal; the text of a decimal with a 32-bit exponent, as the host's decimals
have, reads back under any number options as a decimal, never an integer, of the same value; and
the text of a 64-bit integer reads back as that integer. -/
theorem render_canonical :
    (∀ a b : Decimal, (Number.decimal a).text = (Number.decimal b).text ↔ a.value = b.value) ∧
    (∀ (d : Decimal) (o : NumberOptions), minExp ≤ d.exp →
      ∃ d', readNumber (Bytes.ofString (Number.decimal d).text) o = .ok (.decimal d') ∧
        d'.value = d.value) ∧
    ∀ (n : Int64) (o : NumberOptions),
      readNumber (Bytes.ofString (Number.integer n).text) o = .ok (.integer n) := by
  refine ⟨fun a b => render_eq_iff, fun d o hd => ?_, fun n o => readNumber_ofInt n o⟩
  obtain ⟨d', hread, hn⟩ := readNumber_render o hd
  refine ⟨d', hread, ?_⟩
  rw [← value_normalize d', hn, value_normalize]

/-- `10⁻⁵⁰⁰⁰` is printed with five thousand digits after the point and reads back. -/
theorem render_canonical_tiny :
    minExp ≤ (-5000 : Int) ∧
      ∃ d', readNumber (Bytes.ofString (Number.decimal ⟨1, -5000⟩).text) {} = .ok (.decimal d') ∧
        d'.value = (Decimal.mk 1 (-5000)).value :=
  ⟨by decide, render_canonical.2.1 ⟨1, -5000⟩ {} (by decide)⟩

end ExactJson
