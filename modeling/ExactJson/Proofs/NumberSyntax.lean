import Mathlib
import ExactJson.Proofs.CanonicalDecimal
import ExactJson.Proofs.NoInternalFailure

/-!
# The syntax of numeric runs

The number reader takes a numeric run apart as decimal text: a mantissa, then optionally `e` or
`E` and a signed exponent. This module says, with a grammar and no reference to the reader,
which runs it reads and as what.

* The grammar of numbers, `[+-]? (D+ ('.' D*)? | '.' D+) ([eE] [+-]? D+)?`, spells a `Numeral`:
  a sign, the digits of the mantissa read as one number, the count of digits after the point and
  the written exponent (`NumeralText`).
* The reader takes one more kind of mantissa: a point directly followed by a sign and digits.
  The sign becomes the number's and is counted among the octets after the point, so that `.+5`
  reads as `0.05` (`LooseMantissa`, `ReadableText`, `readNumber_signAfterPoint`).
* A run is read exactly when it is such a number whose exponent, and exponent less the count
  after the point, are 32-bit, whose exponent is written only where the options allow one, and
  whose written exponent is within the bound. It gives a 64-bit integer exactly for integer text
  that fits, and otherwise the decimal the run denotes. It fails for the exponent bound exactly
  when that bound is the only condition broken (`readNumber_syntax`).

Each reading function gets one lemma relating it to its part of the grammar, both ways: the
integer readers (`readSigned_eq_ok`, `readInt64?_eq_some`), the coefficient
(`LooseMantissa.read`, `looseMantissa_of_read`) and the decimal reader
(`ofText?_eq_ok_of_readable`, `readable_of_ofText?`).
-/

namespace ExactJson

/-- The number that decimal digits spell, read from the left after `acc`. -/
def digitsFrom (acc : Nat) (s : Bytes) : Nat := s.foldl (fun a b => a * 10 + (b.toNat - 48)) acc

/-- The number that decimal digits spell. -/
def digitsValue (s : Bytes) : Nat := digitsFrom 0 s

namespace Grammar

/-- Every octet is an ASCII digit. -/
def AllDigits (s : Bytes) : Prop := ∀ b ∈ s, Code.isDigit b.toNat = true

instance (s : Bytes) : Decidable (AllDigits s) :=
  inferInstanceAs (Decidable (∀ b ∈ s, Code.isDigit b.toNat = true))

/-- One or more ASCII digits. -/
def Digits (s : Bytes) : Prop := s ≠ [] ∧ AllDigits s

instance (s : Bytes) : Decidable (Digits s) := inferInstanceAs (Decidable (_ ∧ _))

/-- An optional sign, and whether it is a minus. -/
inductive SignText : Bytes → Bool → Prop
  | none : SignText [] false
  | plus : SignText [0x2B] false
  | minus : SignText [0x2D] true

/-- `IntegerText s z`: `s` is `[+-]? D+` and stands for `z`. -/
def IntegerText (s : Bytes) (z : Int) : Prop :=
  ∃ t W neg, s = t ++ W ∧ SignText t neg ∧ Digits W ∧ z = signed neg (digitsValue W)

/-- The mantissa of the grammar, `[+-]? (D+ ('.' D*)? | '.' D+)`: a sign, the digits on both
sides of the point read as one number, and the count of digits after the point. -/
inductive MantissaText : Bytes → Bool → Nat → Nat → Prop
  | whole {t W : Bytes} {neg : Bool} : SignText t neg → Digits W →
      MantissaText (t ++ W) neg (digitsValue W) 0
  | point {t W F : Bytes} {neg : Bool} : SignText t neg → AllDigits W → AllDigits F →
      W ++ F ≠ [] → MantissaText (t ++ W ++ 0x2E :: F) neg (digitsValue (W ++ F)) F.length

/-- The mantissas the reader takes: those of the grammar, and a point followed by a sign and
digits, where the sign is the number's and counts among the octets after the point. -/
inductive LooseMantissa : Bytes → Bool → Nat → Nat → Prop
  | text {m : Bytes} {neg : Bool} {v f : Nat} : MantissaText m neg v f → LooseMantissa m neg v f
  | signAfterPoint {t F : Bytes} {neg : Bool} : SignText t neg → t ≠ [] → Digits F →
      LooseMantissa (0x2E :: (t ++ F)) neg (digitsValue F) (F.length + 1)

/-- The exponent part, `([eE] [+-]? D+)?`, and the exponent written in it. -/
inductive ExponentText : Bytes → Option Int → Prop
  | none : ExponentText [] none
  | mark {x : UInt8} {E : Bytes} {e : Int} : Decimal.isExponentMark x = true → IntegerText E e →
      ExponentText (x :: E) (some e)

end Grammar

/-- A number as its text spells it: the sign, the digits of the mantissa read as one number,
the count of octets after the point, and the exponent if one is written. -/
structure Numeral where
  neg : Bool
  digits : Nat
  scale : Nat
  exponent : Option Int
  deriving DecidableEq, Repr

namespace Numeral

/-- The written exponent, `0` when there is none. -/
def exp (w : Numeral) : Int := w.exponent.getD 0

/-- The rational number the text denotes. -/
def value (w : Numeral) : ℚ := (signed w.neg w.digits : ℚ) * 10 ^ (w.exp - w.scale)

/-- The decimal the text denotes. -/
def decimal (w : Numeral) : Decimal := ⟨signed w.neg w.digits, w.exp - w.scale⟩

/-- Both the exponent and the exponent less the count after the point are 32-bit. -/
def InRange (w : Numeral) : Prop :=
  Decimal.minExp ≤ w.exp ∧ w.exp ≤ Decimal.maxExp ∧
    Decimal.minExp ≤ w.exp - w.scale ∧ w.exp - w.scale ≤ Decimal.maxExp

/-- No exponent is written when the options refuse one. -/
def Allowed (w : Numeral) (o : NumberOptions) : Prop := o.rejectExponent = true → w.exponent = none

/-- The written exponent is within the options' bound. -/
def Bounded (w : Numeral) (o : NumberOptions) : Prop := w.exp.natAbs ≤ o.limit

instance (w : Numeral) : Decidable w.InRange := inferInstanceAs (Decidable (_ ∧ _))

instance (w : Numeral) (o : NumberOptions) : Decidable (w.Allowed o) :=
  inferInstanceAs (Decidable (_ → _))

instance (w : Numeral) (o : NumberOptions) : Decidable (w.Bounded o) :=
  inferInstanceAs (Decidable (_ ≤ _))

theorem value_decimal (w : Numeral) : w.decimal.value = w.value := rfl

end Numeral

namespace Grammar

/-- `NumeralText raw w`: `raw` is in the grammar of numbers,
`[+-]? (D+ ('.' D*)? | '.' D+) ([eE] [+-]? D+)?`, and spells `w`. -/
def NumeralText (raw : Bytes) (w : Numeral) : Prop :=
  ∃ m x, raw = m ++ x ∧ MantissaText m w.neg w.digits w.scale ∧ ExponentText x w.exponent

/-- `ReadableText raw w`: `raw` is a mantissa the reader takes and an exponent part, and spells
`w`. -/
def ReadableText (raw : Bytes) (w : Numeral) : Prop :=
  ∃ m x, raw = m ++ x ∧ LooseMantissa m w.neg w.digits w.scale ∧ ExponentText x w.exponent

theorem NumeralText.readable {raw : Bytes} {w : Numeral} (h : NumeralText raw w) :
    ReadableText raw w :=
  let ⟨m, x, hraw, hm, hx⟩ := h
  ⟨m, x, hraw, .text hm, hx⟩

end Grammar

open Grammar

/-! ## Digits and signs -/

section Digits

@[simp] theorem allDigits_nil : AllDigits [] := fun _ h => absurd h List.not_mem_nil

@[simp] theorem allDigits_cons {b : UInt8} {s : Bytes} :
    AllDigits (b :: s) ↔ Code.isDigit b.toNat = true ∧ AllDigits s := List.forall_mem_cons

@[simp] theorem allDigits_append {xs ys : Bytes} :
    AllDigits (xs ++ ys) ↔ AllDigits xs ∧ AllDigits ys := List.forall_mem_append

theorem digitsFrom_cons (acc : Nat) (b : UInt8) (s : Bytes) :
    digitsFrom acc (b :: s) = digitsFrom (acc * 10 + (b.toNat - 48)) s := by
  simp only [digitsFrom, List.foldl_cons]

theorem le_digitsFrom (acc : Nat) (s : Bytes) : acc ≤ digitsFrom acc s := by
  induction s generalizing acc with
  | nil => exact le_rfl
  | cons b s ih =>
    rw [digitsFrom_cons]
    exact le_trans (by omega) (ih _)

theorem digitsFrom_append (acc : Nat) (xs ys : Bytes) :
    digitsFrom acc (xs ++ ys) = digitsFrom (digitsFrom acc xs) ys := by
  simp [digitsFrom, List.foldl_append]

theorem digitValue_eq (b : UInt8) :
    Integer.digitValue? b = if Code.isDigit b.toNat then some (b.toNat - 48) else none := by
  have hiff : (0x30 ≤ b ∧ b ≤ 0x39) ↔ Code.isDigit b.toNat = true := by
    simp only [Code.isDigit, UInt8.le_iff_toNat_le, Bool.and_eq_true, decide_eq_true_eq]
    simp
  unfold Integer.digitValue?
  by_cases h : Code.isDigit b.toNat = true
  · rw [if_pos (hiff.mpr h), if_pos h]
  · rw [if_neg (mt hiff.mp h), if_neg h]

/-- Reading digits without a bound gives the number they spell, or nothing when an octet is no
digit. -/
theorem readAllDigits_eq (acc : Nat) (s : Bytes) :
    Integer.readAllDigits acc s = if AllDigits s then some (digitsFrom acc s) else none := by
  induction s generalizing acc with
  | nil => rw [if_pos allDigits_nil]; rfl
  | cons b s ih =>
    simp only [Integer.readAllDigits, digitValue_eq, allDigits_cons]
    by_cases hb : Code.isDigit b.toNat = true
    · simp only [hb, if_true, Option.bind_some, true_and, ih, digitsFrom_cons]
    · simp [hb]

/-- Reading digits under a bound succeeds exactly when all are digits and the number they spell,
after `acc`, is within the bound: the numbers read so far only grow. -/
theorem readDigits_eq_ok {bound acc v : Nat} (hacc : acc ≤ bound) (s : Bytes) :
    Integer.readDigits bound acc s = .ok v ↔ AllDigits s ∧ digitsFrom acc s = v ∧ v ≤ bound := by
  induction s generalizing acc with
  | nil =>
    simp only [Integer.readDigits, Except.ok.injEq, allDigits_nil, true_and, digitsFrom,
      List.foldl_nil]
    constructor
    · rintro rfl
      exact ⟨rfl, hacc⟩
    · rintro ⟨rfl, -⟩
      rfl
  | cons b s ih =>
    simp only [Integer.readDigits, digitValue_eq, allDigits_cons]
    by_cases hb : Code.isDigit b.toNat = true
    · simp only [hb, if_true, true_and]
      by_cases hover : bound < acc * 10 + (b.toNat - 48)
      · -- the digits read so far already pass the bound, and later ones only add
        rw [if_pos hover]
        simp only [reduceCtorEq, false_iff, not_and]
        intro _ hv hle
        have := le_digitsFrom (acc * 10 + (b.toNat - 48)) s
        rw [← digitsFrom_cons, hv] at this
        omega
      · rw [if_neg hover, ih (by omega), digitsFrom_cons]
    · simp [hb]

theorem splitSign_of_signText {t : Bytes} {neg : Bool} (ht : SignText t neg) {W : Bytes}
    (hW : AllDigits W) : Integer.splitSign (t ++ W) = (neg, W) := by
  cases ht with
  | none =>
    cases W with
    | nil => rfl
    | cons b W =>
      have hb := digit_ne (hW b List.mem_cons_self)
      exact splitSign_of_ne W hb.2.1 hb.2.2.1
  | plus => rfl
  | minus => rfl

/-- What `splitSign` takes off is a sign. -/
theorem signText_of_splitSign (s : Bytes) :
    ∃ t, s = t ++ (Integer.splitSign s).2 ∧ SignText t (Integer.splitSign s).1 := by
  unfold Integer.splitSign
  split
  · exact ⟨[0x2B], rfl, .plus⟩
  · exact ⟨[0x2D], rfl, .minus⟩
  · exact ⟨[], rfl, .none⟩

/-- Integer text is the sign `splitSign` takes off and digits after it. -/
theorem integerText_iff {s : Bytes} {z : Int} :
    IntegerText s z ↔ Digits (Integer.splitSign s).2 ∧
      z = signed (Integer.splitSign s).1 (digitsValue (Integer.splitSign s).2) := by
  constructor
  · rintro ⟨t, W, neg, rfl, ht, hW, rfl⟩
    rw [splitSign_of_signText ht hW.2]
    exact ⟨hW, rfl⟩
  · rintro ⟨hW, rfl⟩
    obtain ⟨t, hs, ht⟩ := signText_of_splitSign s
    exact ⟨t, _, _, hs, ht, hW, rfl⟩

theorem Grammar.IntegerText.unique {s : Bytes} {z z' : Int} (h : IntegerText s z) (h' : IntegerText s z') :
    z = z' :=
  (integerText_iff.mp h).2.trans (integerText_iff.mp h').2.symm

theorem readUnbounded_eq (s : Bytes) :
    Integer.readUnbounded s =
      if Digits (Integer.splitSign s).2 then
        some (signed (Integer.splitSign s).1 (digitsValue (Integer.splitSign s).2))
      else none := by
  unfold Integer.readUnbounded
  generalize Integer.splitSign s = p
  obtain ⟨neg, W⟩ := p
  dsimp only
  by_cases hW : W = []
  · subst hW
    rw [if_pos List.isEmpty_nil, if_neg (fun h => h.1 rfl)]
  · rw [if_neg (by simpa using hW), readAllDigits_eq]
    by_cases hd : AllDigits W
    · rw [if_pos hd, if_pos ⟨hW, hd⟩]
      cases neg <;> rfl
    · rw [if_neg hd, if_neg (fun h => hd h.2)]
      rfl

/-- Unbounded integer text: an optional sign and one or more digits. -/
theorem readUnbounded_eq_some {s : Bytes} {z : Int} :
    Integer.readUnbounded s = some z ↔ IntegerText s z := by
  rw [readUnbounded_eq, integerText_iff]
  split_ifs with h
  · simp [h, eq_comm]
  · simp [h]

/-- Signed integer text of a fixed width: the text is integer text, and its value is within the
width. -/
theorem readSigned_eq_ok {bits : Nat} (hbits : 0 < bits) {s : Bytes} {z : Int} :
    Integer.readSigned bits s = .ok z ↔
      IntegerText s z ∧ -(2 ^ (bits - 1) : Int) ≤ z ∧ z < 2 ^ (bits - 1) := by
  -- the half range `B` of the signed width fits the unsigned one
  obtain ⟨B, hB⟩ : ∃ B : Nat, 2 ^ (bits - 1) = B := ⟨_, rfl⟩
  have hwidth : 2 ^ bits - 1 = 2 * B - 1 := by
    rw [← hB, ← pow_succ']
    congr 2
    omega
  have hBpos : 0 < B := hB ▸ Nat.pow_pos (by norm_num)
  have hBint : (2 : Int) ^ (bits - 1) = B := by rw [← hB]; push_cast; rfl
  rw [integerText_iff, hBint]
  unfold Integer.readSigned Integer.readUnsigned
  generalize Integer.splitSign s = p
  obtain ⟨neg, W⟩ := p
  simp only [Nat.pow_eq, hwidth, hB]
  by_cases hfit : Digits W ∧ digitsValue W ≤ 2 * B - 1
  · have hread : Integer.readDigits (2 * B - 1) 0 W = .ok (digitsValue W) :=
      (readDigits_eq_ok (Nat.zero_le _) W).mpr ⟨hfit.1.2, rfl, hfit.2⟩
    rw [if_neg (by simpa using hfit.1.1), hread]
    cases neg
    · by_cases hb : B ≤ digitsValue W
      · simp only [Bool.false_eq_true, if_false, if_pos hb, reduceCtorEq, false_iff, signed]
        omega
      · simp only [Bool.false_eq_true, if_false, if_neg hb, Except.ok.injEq, signed]
        constructor
        · rintro rfl
          exact ⟨⟨hfit.1, rfl⟩, by omega, by omega⟩
        · rintro ⟨⟨-, rfl⟩, -⟩
          rfl
    · by_cases hb : B < digitsValue W
      · simp only [if_true, if_pos hb, reduceCtorEq, false_iff, signed]
        omega
      · simp only [if_true, if_neg hb, Except.ok.injEq, signed]
        constructor
        · rintro rfl
          exact ⟨⟨hfit.1, rfl⟩, by omega, by omega⟩
        · rintro ⟨⟨-, rfl⟩, -⟩
          rfl
  · -- a run that is no digits, or spells more than the unsigned width holds
    constructor
    · intro h
      exfalso
      by_cases hW : W = []
      · subst hW
        simp at h
      · rw [if_neg (by simpa using hW)] at h
        cases hr : Integer.readDigits (2 * B - 1) 0 W with
        | error e =>
          rw [hr] at h
          cases e <;> simp at h
        | ok m =>
          obtain ⟨hd, rfl, hle⟩ := (readDigits_eq_ok (Nat.zero_le _) W).mp hr
          exact hfit ⟨⟨hW, hd⟩, hle⟩
    · rintro ⟨⟨hW, rfl⟩, hlo, hhi⟩
      exfalso
      apply hfit
      refine ⟨hW, ?_⟩
      cases neg <;> simp only [signed, if_true, Bool.false_eq_true, if_false] at hlo hhi <;> omega

/-- A 64-bit integer is read exactly from integer text that stands for it. -/
theorem readInt64?_eq_some {s : Bytes} {n : Int64} :
    Integer.readInt64? s = some n ↔ IntegerText s n.toInt := by
  have hlo := Int64.le_toInt n
  have hhi := Int64.toInt_lt n
  constructor
  · intro h
    unfold Integer.readInt64? at h
    split at h
    · next z hz =>
      obtain ⟨hz, hlo', hhi'⟩ := (readSigned_eq_ok (by norm_num)).mp hz
      cases h
      rw [Int64.toInt_ofInt_of_le (by norm_num at hlo' ⊢; omega) (by norm_num at hhi' ⊢; omega)]
      exact hz
    · cases h
  · intro h
    unfold Integer.readInt64?
    rw [(readSigned_eq_ok (by norm_num)).mpr ⟨h, by norm_num at hlo ⊢; omega,
      by norm_num at hhi ⊢; omega⟩]
    exact congrArg some (Int64.ofInt_toInt n)

end Digits

/-! ## Mantissas -/

section Mantissa

variable {t W F m : Bytes} {neg : Bool} {v f : Nat}

theorem Grammar.SignText.not_point (ht : SignText t neg) : (0x2E : UInt8) ∉ t := by
  cases ht <;> simp

theorem Grammar.SignText.no_mark (ht : SignText t neg) :
    ∀ b ∈ t, Decimal.isExponentMark b = false := by
  cases ht <;> simp [Decimal.isExponentMark]

theorem Grammar.SignText.length_le (ht : SignText t neg) : t.length ≤ 1 := by
  cases ht <;> simp

theorem not_point_of_allDigits (h : AllDigits W) : (0x2E : UInt8) ∉ W :=
  fun hp => (digit_ne (h _ hp)).1 rfl

theorem no_mark_of_allDigits (h : AllDigits W) : ∀ b ∈ W, Decimal.isExponentMark b = false :=
  fun b hb => (digit_ne (h b hb)).2.2.2

theorem Grammar.LooseMantissa.no_mark (h : LooseMantissa m neg v f) :
    ∀ b ∈ m, Decimal.isExponentMark b = false := by
  cases h with
  | text hm =>
    cases hm with
    | whole ht hW =>
      intro b hb
      rcases List.mem_append.mp hb with hb | hb
      · exact ht.no_mark b hb
      · exact no_mark_of_allDigits hW.2 b hb
    | point ht hW hF =>
      intro b hb
      simp only [List.mem_append, List.mem_cons] at hb
      rcases hb with (hb | hb) | rfl | hb
      · exact ht.no_mark b hb
      · exact no_mark_of_allDigits hW b hb
      · decide
      · exact no_mark_of_allDigits hF b hb
  | signAfterPoint ht _ hF =>
    intro b hb
    simp only [List.mem_cons, List.mem_append] at hb
    rcases hb with rfl | hb | hb
    · decide
    · exact ht.no_mark b hb
    · exact no_mark_of_allDigits hF.2 b hb

/-- How the reader sees a mantissa: at most one point, and with the point taken out, integer
text of the mantissa's sign and digits, the octets after the point counted. -/
theorem Grammar.LooseMantissa.read (h : LooseMantissa m neg v f) :
    m.count 0x2E < 2 ∧ (Decimal.dropPoint m).2 = f ∧
      Integer.readUnbounded (Decimal.dropPoint m).1 = some (signed neg v) := by
  cases h with
  | text hm =>
    cases hm with
    | @whole t W _ ht hW =>
      have hp : (0x2E : UInt8) ∉ t ++ W := by
        simp only [List.mem_append, not_or]
        exact ⟨ht.not_point, not_point_of_allDigits hW.2⟩
      rw [List.count_eq_zero_of_not_mem hp, Decimal.dropPoint_of_not_mem hp]
      exact ⟨by norm_num, rfl, readUnbounded_eq_some.mpr ⟨t, W, _, rfl, ht, hW, rfl⟩⟩
    | @point t W F _ ht hW hF hne =>
      have hp : (0x2E : UInt8) ∉ t ++ W := by
        simp only [List.mem_append, not_or]
        exact ⟨ht.not_point, not_point_of_allDigits hW⟩
      rw [Decimal.dropPoint_point hp]
      refine ⟨?_, rfl, readUnbounded_eq_some.mpr
        ⟨t, W ++ F, _, List.append_assoc .., ht, ⟨hne, allDigits_append.mpr ⟨hW, hF⟩⟩, rfl⟩⟩
      rw [List.count_append, List.count_cons_self, List.count_eq_zero_of_not_mem hp,
        List.count_eq_zero_of_not_mem (not_point_of_allDigits hF)]
      norm_num
  | @signAfterPoint t F _ ht htne hF =>
    -- the point stands first, and the sign is counted after it
    have hp : (0x2E : UInt8) ∉ t ++ F := by
      simp only [List.mem_append, not_or]
      exact ⟨ht.not_point, not_point_of_allDigits hF.2⟩
    have hlen : t.length = 1 := by
      have := ht.length_le
      have := List.length_pos_iff.mpr htne
      omega
    rw [← List.nil_append (0x2E :: (t ++ F)), Decimal.dropPoint_point List.not_mem_nil]
    refine ⟨?_, by simp [hlen, Nat.add_comm], readUnbounded_eq_some.mpr ⟨t, F, _, rfl, ht, hF, rfl⟩⟩
    rw [List.nil_append, List.count_cons_self, List.count_eq_zero_of_not_mem hp]
    norm_num

/-- A point placed into integer text, at any position, leaves a mantissa the reader takes: one
of the grammar, or a point right before the sign. -/
theorem looseMantissa_of_split {xs : Bytes} (ht : SignText t neg) (hW : Digits W)
    (hsplit : xs ++ F = t ++ W) : LooseMantissa (xs ++ 0x2E :: F) neg (digitsValue W) F.length := by
  rcases List.append_eq_append_iff.mp hsplit with ⟨a, rfl, rfl⟩ | ⟨c, rfl, rfl⟩
  · -- the point stands before the digits: after the sign, or before it
    by_cases ha : a = []
    · subst ha
      rw [List.append_nil] at ht
      have hm := MantissaText.point ht allDigits_nil hW.2 (by simpa using hW.1)
      rw [List.append_nil, List.nil_append] at hm
      exact .text hm
    · have hxs : xs = [] := by
        have := ht.length_le
        have := List.length_pos_iff.mpr ha
        rw [List.length_append] at *
        exact List.eq_nil_of_length_eq_zero (by omega)
      subst hxs
      have hlen : (a ++ W).length = W.length + 1 := by
        have := ht.length_le
        have := List.length_pos_iff.mpr ha
        rw [List.nil_append] at *
        rw [List.length_append]
        omega
      rw [List.nil_append] at ht ⊢
      rw [hlen]
      exact .signAfterPoint ht ha hW
  · -- the point stands among the digits
    have hd := allDigits_append.mp hW.2
    exact .text (MantissaText.point ht hd.1 hd.2 hW.1)

/-- A mantissa with at most one point that reads as integer text once the point is out is one
the reader takes. -/
theorem looseMantissa_of_read {c : Int} (hc : m.count 0x2E < 2)
    (h : Integer.readUnbounded (Decimal.dropPoint m).1 = some c) :
    ∃ neg v, LooseMantissa m neg v (Decimal.dropPoint m).2 ∧ c = signed neg v := by
  by_cases hp : (0x2E : UInt8) ∈ m
  · obtain ⟨xs, F, rfl⟩ := List.append_of_mem hp
    -- with one point, there is none before it
    have hxs : (0x2E : UInt8) ∉ xs := by
      intro hx
      have := List.count_pos_iff.mpr hx
      rw [List.count_append, List.count_cons_self] at hc
      omega
    rw [Decimal.dropPoint_point hxs] at h ⊢
    obtain ⟨t, W, neg, hsplit, ht, hW, rfl⟩ := readUnbounded_eq_some.mp h
    exact ⟨neg, _, looseMantissa_of_split ht hW hsplit, rfl⟩
  · rw [Decimal.dropPoint_of_not_mem hp] at h ⊢
    obtain ⟨t, W, neg, rfl, ht, hW, rfl⟩ := readUnbounded_eq_some.mp h
    exact ⟨neg, _, .text (.whole ht hW), rfl⟩

end Mantissa

/-! ## Decimal text -/

section DecimalText

variable {m raw : Bytes} {neg : Bool} {v f : Nat}

theorem int32_iff {z : Int} :
    (-(2 ^ (32 - 1) : Int) ≤ z ∧ z < 2 ^ (32 - 1)) ↔ Decimal.minExp ≤ z ∧ z ≤ Decimal.maxExp := by
  simp only [Decimal.minExp, Decimal.maxExp]
  omega

/-- A coefficient the reader takes is read, onto any exponent, as its digits scaled by the
exponent less the count after the point, when that is 32-bit. -/
theorem ofCoefficient_eq_ok (hm : LooseMantissa m neg v f) (whole : Bytes) (e : Int)
    {d : Decimal} :
    Decimal.ofCoefficient whole m e = .ok d ↔
      (Decimal.minExp ≤ e - f ∧ e - f ≤ Decimal.maxExp) ∧ d = ⟨signed neg v, e - f⟩ := by
  obtain ⟨hc, hf, hread⟩ := hm.read
  unfold Decimal.ofCoefficient
  rw [if_neg (by omega)]
  generalize Decimal.dropPoint m = p at hf hread
  obtain ⟨c, scale⟩ := p
  dsimp only at hf hread ⊢
  subst hf
  rw [hread]
  dsimp only
  split_ifs with hr
  · simp only [false_iff, not_and]
    intro h
    omega
  · simp only [Except.ok.injEq]
    constructor
    · rintro rfl
      exact ⟨by omega, rfl⟩
    · rintro ⟨-, rfl⟩
      rfl

theorem looseMantissa_of_ofCoefficient {whole : Bytes} {e : Int} {d : Decimal}
    (h : Decimal.ofCoefficient whole m e = .ok d) : ∃ neg v f, LooseMantissa m neg v f := by
  unfold Decimal.ofCoefficient at h
  split_ifs at h with hc
  split at h
  next digits scale hdp =>
  split at h
  · cases h
  · next c hread =>
    have hread' : Integer.readUnbounded (Decimal.dropPoint m).1 = some c := by
      rw [hdp]
      exact hread
    obtain ⟨neg, v, hm, -⟩ := looseMantissa_of_read (by omega) hread'
    exact ⟨neg, v, _, hm⟩

/-- The first exponent mark of a number stands right after its mantissa. -/
theorem findIdx_exponent (hm : LooseMantissa m neg v f) {x : UInt8}
    (hx : Decimal.isExponentMark x = true) (E : Bytes) :
    (m ++ x :: E).findIdx? Decimal.isExponentMark = some m.length := by
  rw [List.findIdx?_append, List.findIdx?_eq_none_iff.mpr hm.no_mark, List.findIdx?_cons, hx]
  simp

/-- The decimal reader gives a result for a number the reader takes exactly when its exponents
are 32-bit, and the result is the decimal the number denotes. -/
theorem ofText?_eq_ok_of_readable {w : Numeral} (h : ReadableText raw w) {d : Decimal} :
    Decimal.ofText? raw = .ok d ↔ w.InRange ∧ d = w.decimal := by
  obtain ⟨neg, v, f, ex⟩ := w
  obtain ⟨m, x, rfl, hm, hx⟩ := h
  cases hx with
  | none =>
    unfold Decimal.ofText?
    rw [List.append_nil, List.findIdx?_eq_none_iff.mpr hm.no_mark]
    dsimp only
    rw [ofCoefficient_eq_ok hm]
    have h0 : Decimal.minExp ≤ 0 ∧ (0 : Int) ≤ Decimal.maxExp := by decide
    simp only [Numeral.InRange, Numeral.decimal, Numeral.exp, Option.getD_none, h0, true_and]
  | @mark x E e hx hE =>
    unfold Decimal.ofText?
    rw [findIdx_exponent hm hx]
    dsimp only
    rw [show (m ++ x :: E).drop (m.length + 1) = E by simp,
      show (m ++ x :: E).take m.length = m by simp]
    by_cases hr : Decimal.minExp ≤ e ∧ e ≤ Decimal.maxExp
    · rw [(readSigned_eq_ok (by norm_num)).mpr ⟨hE, int32_iff.mpr hr⟩]
      dsimp only
      rw [ofCoefficient_eq_ok hm]
      simp only [Numeral.InRange, Numeral.decimal, Numeral.exp, Option.getD_some, hr, true_and]
    · -- an exponent beyond 32 bits is refused before the coefficient is looked at
      have hnot : ∀ z, Integer.readSigned 32 E ≠ .ok z := by
        intro z hz
        obtain ⟨hz, hrange⟩ := (readSigned_eq_ok (by norm_num)).mp hz
        rw [Grammar.IntegerText.unique hz hE] at hrange
        exact hr (int32_iff.mp hrange)
      cases hs : Integer.readSigned 32 E with
      | ok z => exact absurd hs (hnot z)
      | error er =>
        simp only [Numeral.InRange, Numeral.exp, Option.getD_some]
        cases er <;> simp only [reduceCtorEq, false_iff] <;> rintro ⟨⟨h1, h2, -⟩, -⟩ <;>
          exact hr ⟨h1, h2⟩

/-- Whatever the decimal reader reads is a number the reader takes. -/
theorem readable_of_ofText? {d : Decimal} (h : Decimal.ofText? raw = .ok d) :
    ∃ w, ReadableText raw w := by
  unfold Decimal.ofText? at h
  split at h
  · obtain ⟨neg, v, f, hm⟩ := looseMantissa_of_ofCoefficient h
    exact ⟨⟨neg, v, f, none⟩, raw, [], (List.append_nil raw).symm, hm, .none⟩
  · next i hi =>
    split at h
    · cases h
    · cases h
    · next e he =>
      obtain ⟨neg, v, f, hm⟩ := looseMantissa_of_ofCoefficient h
      obtain ⟨hE, -⟩ := (readSigned_eq_ok (by norm_num)).mp he
      obtain ⟨hlt, hmark, -⟩ := List.findIdx?_eq_some_iff_getElem.mp hi
      refine ⟨⟨neg, v, f, some e⟩, raw.take i, raw[i] :: raw.drop (i + 1), ?_, hm, .mark hmark hE⟩
      rw [← List.drop_eq_getElem_cons hlt, List.take_append_drop]

/-- The exponent the bound is checked against is the written one. -/
theorem exponentWritten_of_readable {w : Numeral} (h : ReadableText raw w) (hr : w.InRange) :
    exponentWritten raw = w.exponent := by
  obtain ⟨neg, v, f, ex⟩ := w
  obtain ⟨m, x, rfl, hm, hx⟩ := h
  cases hx with
  | none =>
    unfold exponentWritten
    rw [List.append_nil, List.findIdx?_eq_none_iff.mpr hm.no_mark]
  | @mark x E e hx hE =>
    have he : Decimal.minExp ≤ e ∧ e ≤ Decimal.maxExp := ⟨hr.1, hr.2.1⟩
    simp only [Decimal.minExp, Decimal.maxExp] at he
    unfold exponentWritten
    rw [findIdx_exponent hm hx]
    dsimp only
    rw [show (m ++ x :: E).drop (m.length + 1) = E by simp,
      (readSigned_eq_ok (by norm_num)).mpr ⟨hE, by norm_num; omega, by norm_num; omega⟩]

theorem any_mark_of_readable {w : Numeral} (h : ReadableText raw w) :
    raw.any Decimal.isExponentMark = w.exponent.isSome := by
  obtain ⟨neg, v, f, ex⟩ := w
  obtain ⟨m, x, rfl, hm, hx⟩ := h
  have hnm : m.any Decimal.isExponentMark = false :=
    List.any_eq_false.mpr (fun b hb => by simp [hm.no_mark b hb])
  cases hx with
  | none => simp [hnm]
  | mark hx _ => simp [List.any_append, hnm, hx]

theorem readable_of_integerText {z : Int} (h : IntegerText raw z) :
    ∃ neg v, ReadableText raw ⟨neg, v, 0, none⟩ ∧ z = signed neg v := by
  obtain ⟨t, W, neg, rfl, ht, hW, rfl⟩ := h
  exact ⟨neg, _, ⟨t ++ W, [], (List.append_nil _).symm, .text (.whole ht hW), .none⟩, rfl⟩

end DecimalText

/-! ## The number reader -/

section Reading

variable {raw : Bytes} {o : NumberOptions}

theorem readNumber_of_readInt64? {n : Int64} (h : Integer.readInt64? raw = some n) :
    readNumber raw o = .ok (.integer n) := by
  have hne : raw.isEmpty = false := by
    cases raw with
    | nil => exact absurd h (by rw [show Integer.readInt64? [] = none from rfl]; simp)
    | cons => rfl
  unfold readNumber
  simp only [hne, Bool.false_eq_true, if_false, h]

theorem readNumber_of_ofText? {d : Decimal} (hi : Integer.readInt64? raw = none)
    (hr : (o.rejectExponent && raw.any Decimal.isExponentMark) = false)
    (hd : Decimal.ofText? raw = .ok d)
    (hb : ∀ e, exponentWritten raw = some e → e.natAbs ≤ o.limit) :
    readNumber raw o = .ok (.decimal d) := by
  have hne : raw.isEmpty = false := by
    cases raw with
    | nil => exact absurd hd (fun h => by cases h)
    | cons => rfl
  unfold readNumber
  simp only [hne, Bool.false_eq_true, if_false, hi, hr, hd]
  cases he : exponentWritten raw with
  | none => rfl
  | some e =>
    have := hb e he
    dsimp only
    rw [if_neg (by omega)]

/-- What a successful read has been through: a 64-bit integer, or else the decimal reader, with
the exponent allowed and within the bound. -/
theorem readNumber_ok_cases {x : Number} (h : readNumber raw o = .ok x) :
    (∃ n, x = .integer n ∧ Integer.readInt64? raw = some n) ∨
      ∃ d, x = .decimal d ∧ Integer.readInt64? raw = none ∧
        (o.rejectExponent && raw.any Decimal.isExponentMark) = false ∧
        Decimal.ofText? raw = .ok d ∧ ∀ e, exponentWritten raw = some e → e.natAbs ≤ o.limit := by
  unfold readNumber at h
  by_cases hemp : raw.isEmpty = true
  · rw [if_pos hemp] at h
    cases h
  rw [if_neg hemp] at h
  cases hi : Integer.readInt64? raw with
  | some n =>
    rw [hi] at h
    cases h
    exact .inl ⟨n, rfl, rfl⟩
  | none =>
    rw [hi] at h
    dsimp only at h
    by_cases hrej : (o.rejectExponent && raw.any Decimal.isExponentMark) = true
    · rw [if_pos hrej] at h
      cases h
    rw [if_neg hrej] at h
    cases hd : Decimal.ofText? raw with
    | error why =>
      rw [hd] at h
      cases h
    | ok d =>
      rw [hd] at h
      dsimp only at h
      refine .inr ⟨d, ?_, rfl, by simpa using hrej, rfl, ?_⟩
      · cases he : exponentWritten raw with
        | none =>
          rw [he] at h
          cases h
          rfl
        | some e =>
          rw [he] at h
          dsimp only at h
          split_ifs at h
          cases h
          rfl
      · intro e he
        rw [he] at h
        dsimp only at h
        split_ifs at h with hb
        omega

/-- A failed read fails for the exponent bound exactly when nothing else stopped it: no 64-bit
integer, no refused exponent, a decimal read, and a written exponent beyond the bound; every
other failure is an invalid number. -/
theorem readNumber_error_cases {f : Failure} (h : readNumber raw o = .error f) :
    let exponentOnly := Integer.readInt64? raw = none ∧
      (o.rejectExponent && raw.any Decimal.isExponentMark) = false ∧
      (∃ d, Decimal.ofText? raw = .ok d) ∧ ∃ e, exponentWritten raw = some e ∧ o.limit < e.natAbs
    (f.cls = .boundExceeded ∧ exponentOnly) ∨ (f.cls = .invalidNumber ∧ ¬exponentOnly) := by
  intro exponentOnly
  unfold readNumber at h
  by_cases hemp : raw.isEmpty = true
  · -- the empty run
    rw [if_pos hemp] at h
    cases h
    refine .inr ⟨rfl, fun ⟨_, _, ⟨d, hd⟩, _⟩ => ?_⟩
    rw [List.isEmpty_iff.mp hemp] at hd
    cases hd
  rw [if_neg hemp] at h
  cases hi : Integer.readInt64? raw with
  | some n =>
    rw [hi] at h
    cases h
  | none =>
    rw [hi] at h
    dsimp only at h
    by_cases hrej : (o.rejectExponent && raw.any Decimal.isExponentMark) = true
    · rw [if_pos hrej] at h
      cases h
      exact .inr ⟨rfl, fun ⟨_, hr, _⟩ => by simp_all⟩
    rw [if_neg hrej] at h
    cases hd : Decimal.ofText? raw with
    | error why =>
      rw [hd] at h
      cases h
      exact .inr ⟨rfl, fun ⟨_, _, ⟨d, hd'⟩, _⟩ => by rw [hd] at hd'; cases hd'⟩
    | ok d =>
      rw [hd] at h
      dsimp only at h
      cases he : exponentWritten raw with
      | none =>
        rw [he] at h
        cases h
      | some e =>
        rw [he] at h
        dsimp only at h
        split_ifs at h with hb
        cases h
        exact .inl ⟨rfl, hi, by simpa using hrej, ⟨d, hd⟩, e, he, by omega⟩

/-! ### The read against the grammar -/

variable {w : Numeral}

theorem reject_eq_false_iff (hw : ReadableText raw w) :
    (o.rejectExponent && raw.any Decimal.isExponentMark) = false ↔ w.Allowed o := by
  rw [any_mark_of_readable hw]
  unfold Numeral.Allowed
  cases o.rejectExponent <;> cases w.exponent <;> simp

theorem exponentBound_iff (hw : ReadableText raw w) (hr : w.InRange) :
    (∀ e, exponentWritten raw = some e → e.natAbs ≤ o.limit) ↔ w.Bounded o := by
  rw [exponentWritten_of_readable hw hr]
  unfold Numeral.Bounded Numeral.exp
  cases w.exponent <;> simp

theorem readable_of_readNumber_ok {x : Number} (h : readNumber raw o = .ok x) :
    ∃ w, ReadableText raw w ∧ w.InRange ∧ w.Allowed o ∧ w.Bounded o := by
  rcases readNumber_ok_cases h with ⟨n, -, hi⟩ | ⟨d, -, -, hrej, hd, hb⟩
  · -- a 64-bit integer is a number with neither point nor exponent
    obtain ⟨neg, v, hw, -⟩ := readable_of_integerText (readInt64?_eq_some.mp hi)
    refine ⟨_, hw, ?_, fun _ => rfl, ?_⟩
    · simp [Numeral.InRange, Numeral.exp, Decimal.minExp, Decimal.maxExp]
    · simp [Numeral.Bounded, Numeral.exp]
  · obtain ⟨w, hw⟩ := readable_of_ofText? hd
    obtain ⟨hr, -⟩ := (ofText?_eq_ok_of_readable hw).mp hd
    exact ⟨w, hw, hr, (reject_eq_false_iff hw).mp hrej, (exponentBound_iff hw hr).mp hb⟩

theorem readNumber_ok_of_readable (hw : ReadableText raw w) (hr : w.InRange) (ha : w.Allowed o)
    (hb : w.Bounded o) : ∃ x, readNumber raw o = .ok x := by
  cases hi : Integer.readInt64? raw with
  | some n => exact ⟨_, readNumber_of_readInt64? hi⟩
  | none =>
    exact ⟨_, readNumber_of_ofText? hi ((reject_eq_false_iff hw).mpr ha)
      ((ofText?_eq_ok_of_readable hw).mpr ⟨hr, rfl⟩) ((exponentBound_iff hw hr).mpr hb)⟩

theorem readNumber_eq_ok_integer {n : Int64} :
    readNumber raw o = .ok (.integer n) ↔ IntegerText raw n.toInt := by
  rw [← readInt64?_eq_some]
  constructor
  · intro h
    rcases readNumber_ok_cases h with ⟨n', hn, hi⟩ | ⟨d, hd, -⟩
    · cases hn
      exact hi
    · cases hd
  · exact readNumber_of_readInt64?

theorem readNumber_eq_decimal {d : Decimal} (h : readNumber raw o = .ok (.decimal d))
    (hw : ReadableText raw w) : d = w.decimal := by
  rcases readNumber_ok_cases h with ⟨n, hn, -⟩ | ⟨d', hd', -, -, hd, -⟩
  · cases hn
  · cases hd'
    exact ((ofText?_eq_ok_of_readable hw).mp hd).2

theorem readNumber_boundExceeded_iff {f : Failure} (h : readNumber raw o = .error f) :
    f.cls = .boundExceeded ↔ ∃ w, ReadableText raw w ∧ w.InRange ∧ w.Allowed o ∧ ¬w.Bounded o := by
  rcases readNumber_error_cases h with ⟨hcls, -, hrej, ⟨d, hd⟩, e, he, hlim⟩ | ⟨hcls, hnot⟩
  · simp only [hcls, true_iff]
    obtain ⟨w, hw⟩ := readable_of_ofText? hd
    obtain ⟨hr, -⟩ := (ofText?_eq_ok_of_readable hw).mp hd
    refine ⟨w, hw, hr, (reject_eq_false_iff hw).mp hrej, fun hb => ?_⟩
    have := (exponentBound_iff hw hr).mpr hb e he
    omega
  · rw [hcls]
    simp only [reduceCtorEq, false_iff, not_exists, not_and]
    intro w hw hr ha hb
    apply hnot
    -- a 64-bit integer would have been read
    have hi : Integer.readInt64? raw = none := by
      cases hi : Integer.readInt64? raw with
      | none => rfl
      | some n =>
        rw [readNumber_of_readInt64? hi] at h
        cases h
    have hbnd := mt (exponentBound_iff hw hr).mp hb
    simp only [not_forall, not_le, exists_prop] at hbnd
    obtain ⟨e, he, hlt⟩ := hbnd
    exact ⟨hi, (reject_eq_false_iff hw).mpr ha, ⟨_, (ofText?_eq_ok_of_readable hw).mpr ⟨hr, rfl⟩⟩,
      e, he, hlt⟩

end Reading

/-- **The numeric runs the reader takes.** A run is read exactly when it is a number the reader
takes, with 32-bit exponents, an exponent written only where the options allow one, and the
written exponent within the bound. It is read as a 64-bit integer exactly when it is integer text
of that integer, and otherwise as a decimal of the value it denotes. A failure is for the
exponent bound exactly when that bound is the only condition broken, and otherwise it is an
invalid number. -/
theorem readNumber_syntax (raw : Bytes) (o : NumberOptions) :
    ((∃ x, readNumber raw o = .ok x) ↔
        ∃ w, ReadableText raw w ∧ w.InRange ∧ w.Allowed o ∧ w.Bounded o) ∧
    (∀ n : Int64, readNumber raw o = .ok (.integer n) ↔ IntegerText raw n.toInt) ∧
    (∀ d, readNumber raw o = .ok (.decimal d) → ∀ w, ReadableText raw w → d.value = w.value) ∧
    ∀ f, readNumber raw o = .error f →
      (f.cls = .boundExceeded ↔
        ∃ w, ReadableText raw w ∧ w.InRange ∧ w.Allowed o ∧ ¬w.Bounded o) ∧
      (f.cls = .boundExceeded ∨ f.cls = .invalidNumber) := by
  refine ⟨⟨fun ⟨_, h⟩ => readable_of_readNumber_ok h,
      fun ⟨w, hw, hr, ha, hb⟩ => readNumber_ok_of_readable hw hr ha hb⟩,
    fun n => readNumber_eq_ok_integer, fun d h w hw => ?_,
    fun f h => ⟨readNumber_boundExceeded_iff h, (readNumber_error_cls h).symm⟩⟩
  rw [readNumber_eq_decimal h hw, Numeral.value_decimal]

/-- In the grammar, a point that starts a number is followed by a digit. -/
theorem digit_after_leading_point {b : UInt8} {rest : Bytes} {w : Numeral}
    (h : NumeralText (0x2E :: b :: rest) w) : Code.isDigit b.toNat = true := by
  obtain ⟨neg, v, f, ex⟩ := w
  obtain ⟨m, x, hraw, hm, -⟩ := h
  cases hm with
  | @whole t W _ ht hW =>
    -- the run would start with a sign or a digit
    obtain ⟨c, W', rfl⟩ := List.exists_cons_of_ne_nil hW.1
    have hc := digit_ne (hW.2 c List.mem_cons_self)
    cases ht <;> simp at hraw
    exact absurd hraw.1.symm hc.1
  | @point t W F _ ht hW hF hne =>
    cases ht with
    | none =>
      cases W with
      | nil =>
        -- the point comes first, and the digits after it are not empty
        obtain ⟨c, F', rfl⟩ := List.exists_cons_of_ne_nil (by simpa using hne)
        simp only [List.nil_append, List.cons_append, List.cons.injEq] at hraw
        rw [hraw.2.1]
        exact hF c List.mem_cons_self
      | cons c W' =>
        have hc := digit_ne (hW c List.mem_cons_self)
        simp only [List.nil_append, List.cons_append, List.cons.injEq] at hraw
        exact absurd hraw.1.symm hc.1
    | plus => simp at hraw
    | minus => simp at hraw

/-- `.+5` is read, as `0.05`, though the grammar has no such number. -/
theorem readNumber_signAfterPoint :
    readNumber [0x2E, 0x2B, 0x35] {} = .ok (.decimal ⟨5, -2⟩) ∧
      ∀ w, ¬NumeralText [0x2E, 0x2B, 0x35] w :=
  ⟨rfl, fun _ h => absurd (digit_after_leading_point h) (by decide)⟩

end ExactJson
