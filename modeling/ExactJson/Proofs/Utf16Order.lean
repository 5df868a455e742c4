import Mathlib
import ExactJson.Proofs.KeyOrder

/-!
# The UTF-16 order of keys

Keys are compared by their UTF-16 code units (`Utf16.compare`). This module says what that order
is and how it relates to the octets of the keys:

* it is a total preorder, antisymmetric in its answers, and two keys tie exactly when they read
  as the same characters (`Utf16.compare_eq_iff`): every character the decoder gives is a scalar
  value, and on scalar values the units are a code without ambiguity;
* on well-formed UTF-8 whose characters lie in the basic plane it is the order of the octets
  (`Utf16.compare_eq_octets`): a well-formed text re-encodes to itself
  (`Utf8.flatMap_encode_codes`), and UTF-8 keeps the order of scalar values octet by octet
  (`Utf8.compare_encode_append`);
* sorting keys puts the members of every object, at every depth, in that order, and members
  whose keys tie stay in the order they were inserted (`Value.stablySorted_sortKeys`).
-/

namespace ExactJson

namespace Utf8

/-! ## Scalar values and their octets -/

variable {c d : Nat}

theorem isScalar_iff : isScalar c = true ↔ c < 0xD800 ∨ (0xE000 ≤ c ∧ c ≤ 0x10FFFF) := by
  simp [isScalar]

theorem encode_one (h : c < 0x80) : encode c = [c.toUInt8] := by
  have hs : isScalar c = true := isScalar_iff.mpr (.inl (by omega))
  simp [encode, hs, h]

theorem encode_two (h₁ : 0x80 ≤ c) (h₂ : c < 0x800) :
    encode c = [(0xC0 + c / 0x40).toUInt8, (0x80 + c % 0x40).toUInt8] := by
  have hs : isScalar c = true := isScalar_iff.mpr (.inl (by omega))
  simp only [encode, hs, if_true]
  rw [if_neg (by omega), if_pos h₂]

theorem encode_three (hs : isScalar c = true) (h₁ : 0x800 ≤ c) (h₂ : c < 0x10000) :
    encode c = [(0xE0 + c / 0x1000).toUInt8, (0x80 + c / 0x40 % 0x40).toUInt8,
      (0x80 + c % 0x40).toUInt8] := by
  simp only [encode, hs, if_true]
  rw [if_neg (by omega), if_neg (by omega), if_pos h₂]

theorem encode_four (h₁ : 0x10000 ≤ c) (h₂ : c ≤ 0x10FFFF) :
    encode c = [(0xF0 + c / 0x40000).toUInt8, (0x80 + c / 0x1000 % 0x40).toUInt8,
      (0x80 + c / 0x40 % 0x40).toUInt8, (0x80 + c % 0x40).toUInt8] := by
  have hs : isScalar c = true := isScalar_iff.mpr (.inr ⟨by omega, h₂⟩)
  simp only [encode, hs, if_true]
  rw [if_neg (by omega), if_neg (by omega), if_neg (by omega)]

theorem toUInt8_eq {x : Nat} {b : UInt8} (h : x % 256 = b.toNat) : x.toUInt8 = b :=
  (UInt8.ofNat_eq_iff_mod_eq_toNat x b).mpr h

theorem isTail_iff {b : UInt8} : isTail b = true ↔ 0x80 ≤ b.toNat ∧ b.toNat ≤ 0xBF := by
  simp [isTail, UInt8.le_iff_toNat_le]

theorem within_iff {lo hi : Nat} {b : UInt8} :
    within lo hi b = true ↔ lo ≤ b.toNat ∧ b.toNat ≤ hi := by
  simp [within]

/-- A two-octet sequence is the encoding of the value it stands for. -/
theorem encode_of_two {b b1 : UInt8} (hb : 0xC2 ≤ b.toNat ∧ b.toNat ≤ 0xDF)
    (h1 : 0x80 ≤ b1.toNat ∧ b1.toNat ≤ 0xBF) :
    isScalar ((b.toNat - 0xC0) * 0x40 + (b1.toNat - 0x80)) = true ∧
      encode ((b.toNat - 0xC0) * 0x40 + (b1.toNat - 0x80)) = [b, b1] := by
  refine ⟨isScalar_iff.mpr (.inl (by omega)), ?_⟩
  rw [encode_two (by omega) (by omega)]
  simp only [List.cons.injEq, and_true]
  exact ⟨toUInt8_eq (by omega), toUInt8_eq (by omega)⟩

/-- A three-octet sequence, its second octet in the narrower range of its lead (no overlong
form, no surrogate), is the encoding of the value it stands for. -/
theorem encode_of_three {b b1 b2 : UInt8} (hb : 0xE0 ≤ b.toNat ∧ b.toNat ≤ 0xEF)
    (h1 : (b.toNat = 0xE0 → 0xA0 ≤ b1.toNat) ∧ 0x80 ≤ b1.toNat ∧
      (b.toNat = 0xED → b1.toNat ≤ 0x9F) ∧ b1.toNat ≤ 0xBF)
    (h2 : 0x80 ≤ b2.toNat ∧ b2.toNat ≤ 0xBF) :
    isScalar ((b.toNat - 0xE0) * 0x1000 + (b1.toNat - 0x80) * 0x40 + (b2.toNat - 0x80)) = true ∧
      encode ((b.toNat - 0xE0) * 0x1000 + (b1.toNat - 0x80) * 0x40 + (b2.toNat - 0x80)) =
        [b, b1, b2] := by
  have hs : isScalar ((b.toNat - 0xE0) * 0x1000 + (b1.toNat - 0x80) * 0x40
      + (b2.toNat - 0x80)) = true := by
    rw [isScalar_iff]
    omega
  refine ⟨hs, ?_⟩
  rw [encode_three hs (by omega) (by omega)]
  simp only [List.cons.injEq, and_true]
  exact ⟨toUInt8_eq (by omega), toUInt8_eq (by omega), toUInt8_eq (by omega)⟩

/-- A four-octet sequence, its second octet in the narrower range of its lead (no overlong
form, nothing above U+10FFFF), is the encoding of the value it stands for. -/
theorem encode_of_four {b b1 b2 b3 : UInt8} (hb : 0xF0 ≤ b.toNat ∧ b.toNat ≤ 0xF4)
    (h1 : (b.toNat = 0xF0 → 0x90 ≤ b1.toNat) ∧ 0x80 ≤ b1.toNat ∧
      (b.toNat = 0xF4 → b1.toNat ≤ 0x8F) ∧ b1.toNat ≤ 0xBF)
    (h2 : 0x80 ≤ b2.toNat ∧ b2.toNat ≤ 0xBF) (h3 : 0x80 ≤ b3.toNat ∧ b3.toNat ≤ 0xBF) :
    isScalar ((b.toNat - 0xF0) * 0x40000 + (b1.toNat - 0x80) * 0x1000
      + (b2.toNat - 0x80) * 0x40 + (b3.toNat - 0x80)) = true ∧
      encode ((b.toNat - 0xF0) * 0x40000 + (b1.toNat - 0x80) * 0x1000
        + (b2.toNat - 0x80) * 0x40 + (b3.toNat - 0x80)) = [b, b1, b2, b3] := by
  have hb' := b.toNat_lt
  refine ⟨isScalar_iff.mpr (.inr ⟨by omega, by omega⟩), ?_⟩
  rw [encode_four (by omega) (by omega)]
  simp only [List.cons.injEq, and_true]
  exact ⟨toUInt8_eq (by omega), toUInt8_eq (by omega), toUInt8_eq (by omega),
    toUInt8_eq (by omega)⟩

/-- A well-formed sequence stands for a scalar value, and its octets are that value's encoding. -/
theorem lead_scalar {b : UInt8} {rest : Bytes} {c w k : Nat} (h : lead b rest = (.scalar c w, k)) :
    isScalar c = true ∧ encode c = b :: rest.take k := by
  have hb := b.toNat_lt
  unfold lead at h
  by_cases h1 : b.toNat < 0x80
  · -- one octet
    rw [if_pos h1] at h
    simp only [Prod.mk.injEq, Piece.scalar.injEq] at h
    obtain ⟨⟨rfl, rfl⟩, rfl⟩ := h
    have hb0 : b.toNat.toUInt8 = b := toUInt8_eq (by omega)
    exact ⟨isScalar_iff.mpr (.inl (by omega)), by rw [encode_one h1, hb0, List.take_zero]⟩
  rw [if_neg h1] at h
  by_cases h2 : 0xC2 ≤ b.toNat ∧ b.toNat ≤ 0xDF
  · -- two octets
    rw [if_pos h2] at h
    rcases rest with _ | ⟨b1, rest⟩
    · simp at h
    · dsimp only at h
      split_ifs at h with ht
      · simp only [Prod.mk.injEq, Piece.scalar.injEq] at h
        obtain ⟨⟨rfl, rfl⟩, rfl⟩ := h
        rw [List.take_succ_cons, List.take_zero]
        exact encode_of_two h2 (isTail_iff.mp ht)
      · simp at h
  rw [if_neg h2] at h
  by_cases h3 : 0xE0 ≤ b.toNat ∧ b.toNat ≤ 0xEF
  · -- three octets
    rw [if_pos h3] at h
    rcases rest with _ | ⟨b1, _ | ⟨b2, rest⟩⟩
    · simp at h
    · simp at h
    · dsimp only at h
      generalize hlo : (if b.toNat = 0xE0 then 0xA0 else 0x80) = lo at h
      generalize hhi : (if b.toNat = 0xED then 0x9F else 0xBF) = hi at h
      split at h
      · rename_i ht
        simp only [Prod.mk.injEq, Piece.scalar.injEq] at h
        obtain ⟨⟨rfl, rfl⟩, rfl⟩ := h
        simp only [Bool.and_eq_true, within_iff, isTail_iff] at ht
        obtain ⟨⟨hlo', hhi'⟩, ht2⟩ := ht
        have hb1 : (b.toNat = 0xE0 → 0xA0 ≤ b1.toNat) ∧ 0x80 ≤ b1.toNat ∧
            (b.toNat = 0xED → b1.toNat ≤ 0x9F) ∧ b1.toNat ≤ 0xBF := by
          subst hlo hhi
          split_ifs at hlo' hhi' <;> omega
        rw [List.take_succ_cons, List.take_succ_cons, List.take_zero]
        exact encode_of_three h3 hb1 ht2
      · simp at h
  rw [if_neg h3] at h
  by_cases h4 : 0xF0 ≤ b.toNat ∧ b.toNat ≤ 0xF4
  · -- four octets
    rw [if_pos h4] at h
    rcases rest with _ | ⟨b1, _ | ⟨b2, _ | ⟨b3, rest⟩⟩⟩
    · simp at h
    · simp at h
    · simp at h
    · dsimp only at h
      generalize hlo : (if b.toNat = 0xF0 then 0x90 else 0x80) = lo at h
      generalize hhi : (if b.toNat = 0xF4 then 0x8F else 0xBF) = hi at h
      split at h
      · rename_i ht
        simp only [Prod.mk.injEq, Piece.scalar.injEq] at h
        obtain ⟨⟨rfl, rfl⟩, rfl⟩ := h
        simp only [Bool.and_eq_true, within_iff, isTail_iff] at ht
        obtain ⟨⟨⟨hlo', hhi'⟩, ht2⟩, ht3⟩ := ht
        have hb1 : (b.toNat = 0xF0 → 0x90 ≤ b1.toNat) ∧ 0x80 ≤ b1.toNat ∧
            (b.toNat = 0xF4 → b1.toNat ≤ 0x8F) ∧ b1.toNat ≤ 0xBF := by
          subst hlo hhi
          split_ifs at hlo' hhi' <;> omega
        rw [List.take_succ_cons, List.take_succ_cons, List.take_succ_cons, List.take_zero]
        exact encode_of_four h4 hb1 ht2 ht3
      · simp at h
  rw [if_neg h4] at h
  simp at h

theorem pieces_cons (b : UInt8) (rest : Bytes) :
    pieces (b :: rest) = (lead b rest).1 :: pieces (rest.drop (lead b rest).2) := by
  rw [pieces]

theorem isScalar_code (b : UInt8) (rest : Bytes) : isScalar (lead b rest).1.code = true := by
  rcases h : lead b rest with ⟨_ | _, k⟩
  · exact (lead_scalar h).1
  · rfl

/-- Every character the decoder gives, a stray octet's replacement included, is a scalar
value. -/
theorem isScalar_of_mem_codes {s : Bytes} {c : Nat} (h : c ∈ codes s) : isScalar c = true := by
  induction s using pieces.induct with
  | case1 => simp [codes, pieces] at h
  | case2 b rest ih =>
    rw [codes, pieces_cons, List.map_cons, List.mem_cons] at h
    rcases h with rfl | h
    · exact isScalar_code b rest
    · exact ih h

/-- A well-formed text is the encoding of its characters. -/
theorem flatMap_encode_codes {s : Bytes} (h : isWellFormed s = true) :
    (codes s).flatMap encode = s := by
  induction s using pieces.induct with
  | case1 => simp [codes, pieces]
  | case2 b rest ih =>
    rw [isWellFormed, pieces_cons, List.all_cons, Bool.and_eq_true] at h
    obtain ⟨hhead, hrest⟩ := h
    rw [codes, pieces_cons, List.map_cons, List.flatMap_cons, ← codes, ih hrest]
    rcases hl : lead b rest with ⟨_ | _, k⟩
    · dsimp only [Piece.code]
      rw [(lead_scalar hl).2, List.cons_append, List.take_append_drop]
    · rw [hl] at hhead
      simp at hhead

/-! ## UTF-8 keeps the order of scalar values -/

theorem isScalar_cases (hc : isScalar c = true) :
    c < 0x80 ∨ (0x80 ≤ c ∧ c < 0x800) ∨ (0x800 ≤ c ∧ c < 0x10000) ∨
      (0x10000 ≤ c ∧ c ≤ 0x10FFFF) := by
  rw [isScalar_iff] at hc
  omega

theorem compare_eq_compare_of_iff {a b x y : Nat} (hlt : a < b ↔ x < y) (hgt : b < a ↔ y < x) :
    compare a b = compare x y := by
  simp only [Nat.compare_eq_ite_lt, hlt, hgt]

theorem toNat_toUInt8 {x : Nat} (h : x < 256) : x.toUInt8.toNat = x := by
  simp only [Nat.toUInt8_eq, UInt8.toNat_ofNat']
  omega

theorem compare_toUInt8 {x y : Nat} (hx : x < 256) (hy : y < 256) :
    compare x.toUInt8 y.toUInt8 = compare x y := by
  rw [UInt8.compare_eq_toNat_compare_toNat, toNat_toUInt8 hx, toNat_toUInt8 hy]

theorem compare_octet {a x y : Nat} (hx : a + x < 256) (hy : a + y < 256) :
    compare (a + x).toUInt8 (a + y).toUInt8 = compare x y :=
  (compare_toUInt8 hx hy).trans (compare_eq_compare_of_iff (by omega) (by omega))

/-- Numbers compare by their sixty-fourths first, then by what is left over: the six bits a
continuation octet carries. -/
theorem compare_div_mod (c d : Nat) :
    compare c d = (compare (c / 0x40) (d / 0x40)).then (compare (c % 0x40) (d % 0x40)) := by
  rcases Nat.lt_trichotomy (c / 0x40) (d / 0x40) with h | h | h
  · rw [Nat.compare_eq_lt.mpr h, Nat.compare_eq_lt.mpr (by omega)]
    rfl
  · rw [Nat.compare_eq_eq.mpr h]
    exact compare_eq_compare_of_iff (by omega) (by omega)
  · rw [Nat.compare_eq_gt.mpr h, Nat.compare_eq_gt.mpr (by omega)]
    rfl

/-- Sequences whose first octets differ compare as those octets do, whatever follows. -/
theorem compare_lead_lt {x y : Nat} {xs ys : Bytes} (hx : x < 256) (hy : y < 256) (hxy : x < y)
    (hcd : c < d) (t : Ordering) :
    compare (x.toUInt8 :: xs) (y.toUInt8 :: ys) = (compare c d).then t := by
  rw [List.compare_cons_cons, compare_toUInt8 hx hy, Nat.compare_eq_lt.mpr hxy,
    Nat.compare_eq_lt.mpr hcd]
  rfl

theorem compare_lead_gt {x y : Nat} {xs ys : Bytes} (hx : x < 256) (hy : y < 256) (hxy : y < x)
    (hcd : d < c) (t : Ordering) :
    compare (x.toUInt8 :: xs) (y.toUInt8 :: ys) = (compare c d).then t := by
  rw [List.compare_cons_cons, compare_toUInt8 hx hy, Nat.compare_eq_gt.mpr hxy,
    Nat.compare_eq_gt.mpr hcd]
  rfl

section SameWidth

variable {r s : Bytes}

theorem compare_width_one (hc : c < 0x80) (hd : d < 0x80) :
    compare (c.toUInt8 :: r) (d.toUInt8 :: s) = (compare c d).then (compare r s) := by
  rw [List.compare_cons_cons, compare_toUInt8 (by omega) (by omega)]

theorem compare_width_two (hc : c < 0x800) (hd : d < 0x800) :
    compare ((0xC0 + c / 0x40).toUInt8 :: (0x80 + c % 0x40).toUInt8 :: r)
      ((0xC0 + d / 0x40).toUInt8 :: (0x80 + d % 0x40).toUInt8 :: s) =
      (compare c d).then (compare r s) := by
  rw [List.compare_cons_cons, List.compare_cons_cons, compare_octet (by omega) (by omega),
    compare_octet (by omega) (by omega), ← Ordering.then_assoc, ← compare_div_mod]

theorem compare_width_three (hc : c < 0x10000) (hd : d < 0x10000) :
    compare ((0xE0 + c / 0x1000).toUInt8 :: (0x80 + c / 0x40 % 0x40).toUInt8 ::
        (0x80 + c % 0x40).toUInt8 :: r)
      ((0xE0 + d / 0x1000).toUInt8 :: (0x80 + d / 0x40 % 0x40).toUInt8 ::
        (0x80 + d % 0x40).toUInt8 :: s) =
      (compare c d).then (compare r s) := by
  simp only [List.compare_cons_cons]
  rw [compare_octet (by omega) (by omega), compare_octet (by omega) (by omega),
    compare_octet (by omega) (by omega), compare_div_mod c d, compare_div_mod (c / 0x40),
    Nat.div_div_eq_div_mul, Nat.div_div_eq_div_mul]
  simp only [Ordering.then_assoc, Nat.reduceMul]

theorem compare_width_four (hc : c ≤ 0x10FFFF) (hd : d ≤ 0x10FFFF) :
    compare ((0xF0 + c / 0x40000).toUInt8 :: (0x80 + c / 0x1000 % 0x40).toUInt8 ::
        (0x80 + c / 0x40 % 0x40).toUInt8 :: (0x80 + c % 0x40).toUInt8 :: r)
      ((0xF0 + d / 0x40000).toUInt8 :: (0x80 + d / 0x1000 % 0x40).toUInt8 ::
        (0x80 + d / 0x40 % 0x40).toUInt8 :: (0x80 + d % 0x40).toUInt8 :: s) =
      (compare c d).then (compare r s) := by
  simp only [List.compare_cons_cons]
  rw [compare_octet (by omega) (by omega), compare_octet (by omega) (by omega),
    compare_octet (by omega) (by omega), compare_octet (by omega) (by omega),
    compare_div_mod c d, compare_div_mod (c / 0x40), compare_div_mod (c / 0x40 / 0x40)]
  simp only [Nat.div_div_eq_div_mul, Ordering.then_assoc, Nat.reduceMul]

end SameWidth

/-- **UTF-8 keeps the order of scalar values**, octet by octet, and no encoding is a proper
prefix of another: what follows two encodings matters only when they are equal. -/
theorem compare_encode_append (hc : isScalar c = true) (hd : isScalar d = true) (r s : Bytes) :
    compare (encode c ++ r) (encode d ++ s) = (compare c d).then (compare r s) := by
  -- one case for each pair of widths: equal widths compare octet by octet, and otherwise the
  -- first octet, which gives the width, decides
  rcases isScalar_cases hc with hc1 | ⟨hc1, hc2⟩ | ⟨hc1, hc2⟩ | ⟨hc1, hc2⟩ <;>
  rcases isScalar_cases hd with hd1 | ⟨hd1, hd2⟩ | ⟨hd1, hd2⟩ | ⟨hd1, hd2⟩ <;>
  simp (disch := omega) only [encode_one, encode_two, encode_three hc, encode_three hd,
    encode_four, List.cons_append, List.nil_append]
  · exact compare_width_one hc1 hd1
  · exact compare_lead_lt (by omega) (by omega) (by omega) (by omega) _
  · exact compare_lead_lt (by omega) (by omega) (by omega) (by omega) _
  · exact compare_lead_lt (by omega) (by omega) (by omega) (by omega) _
  · exact compare_lead_gt (by omega) (by omega) (by omega) (by omega) _
  · exact compare_width_two hc2 hd2
  · exact compare_lead_lt (by omega) (by omega) (by omega) (by omega) _
  · exact compare_lead_lt (by omega) (by omega) (by omega) (by omega) _
  · exact compare_lead_gt (by omega) (by omega) (by omega) (by omega) _
  · exact compare_lead_gt (by omega) (by omega) (by omega) (by omega) _
  · exact compare_width_three hc2 hd2
  · exact compare_lead_lt (by omega) (by omega) (by omega) (by omega) _
  · exact compare_lead_gt (by omega) (by omega) (by omega) (by omega) _
  · exact compare_lead_gt (by omega) (by omega) (by omega) (by omega) _
  · exact compare_lead_gt (by omega) (by omega) (by omega) (by omega) _
  · exact compare_width_four hc2 hd2

theorem encode_ne_nil (c : Nat) : encode c ≠ [] := by
  unfold encode
  dsimp only
  split_ifs <;> simp

/-- On scalar values, the octets of a sequence of characters compare as the characters do. -/
theorem compare_flatMap_encode {l m : List Nat} (hl : ∀ c ∈ l, isScalar c = true)
    (hm : ∀ d ∈ m, isScalar d = true) :
    compare (l.flatMap encode) (m.flatMap encode) = compare l m := by
  induction l generalizing m with
  | nil =>
    cases m with
    | nil => rfl
    | cons d m =>
      obtain ⟨x, t, hx⟩ := List.exists_cons_of_ne_nil (encode_ne_nil d)
      rw [List.flatMap_nil, List.flatMap_cons, hx, List.cons_append, List.compare_nil_cons,
        List.compare_nil_cons]
  | cons c l ih =>
    cases m with
    | nil =>
      obtain ⟨x, t, hx⟩ := List.exists_cons_of_ne_nil (encode_ne_nil c)
      rw [List.flatMap_nil, List.flatMap_cons, hx, List.cons_append, List.compare_cons_nil,
        List.compare_cons_nil]
    | cons d m =>
      have hc := hl c List.mem_cons_self
      have hd := hm d List.mem_cons_self
      rw [List.flatMap_cons, List.flatMap_cons, compare_encode_append hc hd,
        ih (fun c' h => hl c' (List.mem_cons_of_mem c h))
          (fun d' h => hm d' (List.mem_cons_of_mem d h)),
        List.compare_cons_cons]

/-- Well-formed texts compare octet by octet as their characters compare. -/
theorem compare_eq_compare_codes {a b : Bytes} (ha : isWellFormed a = true)
    (hb : isWellFormed b = true) : compare a b = compare (codes a) (codes b) := by
  conv => lhs; rw [← flatMap_encode_codes ha, ← flatMap_encode_codes hb]
  exact compare_flatMap_encode (fun _ => isScalar_of_mem_codes) (fun _ => isScalar_of_mem_codes)

end Utf8

namespace Utf16

variable {a b k : Bytes} {c d : Nat}

/-- The unit order is the lexicographic order of unit sequences. -/
theorem compareUnitLists_eq_compare (l m : List Nat) : compareUnitLists l m = Ord.compare l m := by
  induction l generalizing m with
  | nil => cases m <;> rfl
  | cons x l ih =>
    cases m with
    | nil => rfl
    | cons y m =>
      rw [compareUnitLists, List.compare_cons_cons, Nat.compare_eq_ite_lt, ih]
      split_ifs <;> rfl

theorem compare_eq_compare_units (a b : Bytes) : compare a b = Ord.compare (units a) (units b) :=
  compareUnitLists_eq_compare _ _

theorem unitsOf_ne_nil (c : Nat) : unitsOf c ≠ [] := by
  unfold unitsOf
  split_ifs <;> simp

/-- The units of a scalar value are never the start of another's: a surrogate is no scalar
value, and a pair of surrogates gives back the value it came from. -/
theorem unitsOf_append_inj (hc : Utf8.isScalar c = true) (hd : Utf8.isScalar d = true)
    {r s : List Nat} (h : unitsOf c ++ r = unitsOf d ++ s) : c = d ∧ r = s := by
  rw [Utf8.isScalar_iff] at hc hd
  unfold unitsOf at h
  split_ifs at h with h1 h2 h2 <;>
    simp only [List.cons_append, List.nil_append, List.cons.injEq] at h
  · exact h
  · exfalso
    omega
  · exfalso
    omega
  · exact ⟨by omega, h.2.2⟩

theorem flatMap_unitsOf_inj {l m : List Nat} (hl : ∀ c ∈ l, Utf8.isScalar c = true)
    (hm : ∀ d ∈ m, Utf8.isScalar d = true) (h : l.flatMap unitsOf = m.flatMap unitsOf) :
    l = m := by
  induction l generalizing m with
  | nil =>
    cases m with
    | nil => rfl
    | cons d m =>
      rw [List.flatMap_nil, List.flatMap_cons] at h
      exact absurd (List.append_eq_nil_iff.mp h.symm).1 (unitsOf_ne_nil d)
  | cons c l ih =>
    cases m with
    | nil =>
      rw [List.flatMap_nil, List.flatMap_cons] at h
      exact absurd (List.append_eq_nil_iff.mp h).1 (unitsOf_ne_nil c)
    | cons d m =>
      rw [List.flatMap_cons, List.flatMap_cons] at h
      obtain ⟨rfl, hrest⟩ :=
        unitsOf_append_inj (hl c List.mem_cons_self) (hm d List.mem_cons_self) h
      rw [ih (fun c' h' => hl c' (List.mem_cons_of_mem c h'))
        (fun d' h' => hm d' (List.mem_cons_of_mem c h')) hrest]

/-- Two keys have the same units exactly when they read as the same characters. -/
theorem units_eq_iff : units a = units b ↔ Utf8.codes a = Utf8.codes b := by
  refine ⟨flatMap_unitsOf_inj (fun _ => Utf8.isScalar_of_mem_codes)
    (fun _ => Utf8.isScalar_of_mem_codes), fun h => ?_⟩
  rw [units, units, h]

/-- Below U+10000 a character is its own unit. -/
theorem units_eq_codes (h : ∀ c ∈ Utf8.codes a, c < 0x10000) : units a = Utf8.codes a := by
  rw [units]
  conv => rhs; rw [← List.flatMap_singleton' (Utf8.codes a)]
  refine List.flatMap_congr fun c hc => ?_
  rw [unitsOf, if_pos (h c hc)]

theorem compare_eq_iff : compare a b = .eq ↔ Utf8.codes a = Utf8.codes b := by
  rw [compare_eq_compare_units, Std.LawfulEqOrd.compare_eq_iff_eq, units_eq_iff]

theorem compare_self (a : Bytes) : compare a a = .eq :=
  compare_eq_iff.mpr rfl

theorem compare_swap (a b : Bytes) : compare b a = (compare a b).swap := by
  rw [compare_eq_compare_units, compare_eq_compare_units, Std.OrientedOrd.eq_swap]

theorem compare_trans (hab : compare a b ≠ .gt) (hbk : compare b k ≠ .gt) :
    compare a k ≠ .gt := by
  rw [compare_eq_compare_units] at hab hbk ⊢
  exact Ordering.ne_gt_iff_isLE.mpr
    (Std.TransOrd.isLE_trans (Ordering.ne_gt_iff_isLE.mp hab) (Ordering.ne_gt_iff_isLE.mp hbk))

/-- On well-formed text of the basic plane the unit order is the order of the octets. -/
theorem compare_eq_octets (ha : Utf8.isWellFormed a = true) (hb : Utf8.isWellFormed b = true)
    (ha' : ∀ c ∈ Utf8.codes a, c < 0x10000) (hb' : ∀ c ∈ Utf8.codes b, c < 0x10000) :
    compare a b = Ord.compare a b := by
  rw [compare_eq_compare_units, units_eq_codes ha', units_eq_codes hb',
    Utf8.compare_eq_compare_codes ha hb]

end Utf16

/-! ## Sorting members stably -/

namespace Members

variable {α : Type} {k : Bytes}

/-- Whether a member's key ties with `k` in the unit order. -/
def tiesWith (k : Bytes) (m : Bytes × α) : Bool := Utf16.compare m.1 k == .eq

/-- `ns` is `ms` sorted stably by key: the same members, in key order, with the members of each
tie class in the order they had in `ms`. -/
structure StablySorted (ms ns : List (Bytes × α)) : Prop where
  perm : ns.Perm ms
  sorted : ns.Pairwise fun a b => keyLE a b = true
  stable : ∀ k, ns.filter (tiesWith k) = ms.filter (tiesWith k)

/-- Members of one tie class are in key order among themselves, either way round. -/
theorem keyLE_of_tiesWith {a b : Bytes × α} (ha : tiesWith k a = true)
    (hb : tiesWith k b = true) :
    keyLE a b = true := by
  simp only [tiesWith, beq_iff_eq, Utf16.compare_eq_iff] at ha hb
  have hab : Utf16.compare a.1 b.1 = .eq := Utf16.compare_eq_iff.mpr (ha.trans hb.symm)
  simp [keyLE, hab]

theorem stablySorted_sortMembers (ms : List (Bytes × α)) : StablySorted ms (sortMembers ms) where
  perm := Value.sortMembers_perm ms
  sorted := by
    rw [sortMembers_eq]
    exact List.pairwise_mergeSort keyLE_trans keyLE_total ms
  stable k := by
    -- a tie class is already in key order, so the merge sort keeps it as a sublist; it loses
    -- none of its members, so the sublist is all of the class
    have hclass : (ms.filter (tiesWith k)).Pairwise fun a b => keyLE a b = true :=
      List.pairwise_of_forall_mem_list fun a ha b hb =>
        keyLE_of_tiesWith (List.mem_filter.mp ha).2 (List.mem_filter.mp hb).2
    have hsub : (ms.filter (tiesWith k)).Sublist (sortMembers ms) := by
      rw [sortMembers_eq]
      exact List.sublist_mergeSort keyLE_trans keyLE_total hclass (List.filter_sublist)
    have hsub' : (ms.filter (tiesWith k)).Sublist ((sortMembers ms).filter (tiesWith k)) := by
      have h := hsub.filter (tiesWith k)
      rwa [List.filter_eq_self.mpr fun a ha => (List.mem_filter.mp ha).2] at h
    have hlen := ((Value.sortMembers_perm ms).filter (tiesWith k)).length_eq
    exact (hsub'.eq_of_length hlen.symm).symm

end Members

theorem zip_map_self {β γ : Type} (l : List β) (f : β → γ) :
    l.zip (l.map f) = l.map fun b => (b, f b) := by
  simpa using @List.zip_map' β β γ id f l

namespace Value

/-- `w` is `v` with the members of every object, at every depth, sorted stably by key: arrays
keep their elements in order, and the members of an object, each value related in turn, are
sorted stably. -/
inductive StablySorted : Value → Value → Prop
  | leaf {v : Value} : v.isContainer = false → StablySorted v v
  | arr {xs ys : List Value} : xs.length = ys.length →
      (∀ p ∈ xs.zip ys, StablySorted p.1 p.2) → StablySorted (.arr xs) (.arr ys)
  | obj {ms ms' ns : List (Bytes × Value)} : ms.map Prod.fst = ms'.map Prod.fst →
      (∀ p ∈ ms.zip ms', StablySorted p.1.2 p.2.2) → Members.StablySorted ms' ns →
      StablySorted (.obj ms) (.obj ns)

theorem stablySorted_sortKeys (v : Value) : v.StablySorted v.sortKeys := by
  induction v using induction_mem with
  | obj ms ih =>
    rw [sortKeys, sortKeysMembers_eq_map]
    refine .obj (by rw [List.map_map]; rfl) (fun p hp => ?_) (Members.stablySorted_sortMembers _)
    rw [zip_map_self] at hp
    obtain ⟨m, hm, rfl⟩ := List.mem_map.mp hp
    exact ih m hm
  | arr xs ih =>
    rw [sortKeys, sortKeysElems_eq_map]
    refine .arr (List.length_map _).symm fun p hp => ?_
    rw [zip_map_self] at hp
    obtain ⟨x, hx, rfl⟩ := List.mem_map.mp hp
    exact ih x hx
  | _ => exact .leaf rfl

end Value

theorem Utf16.compare_total (a b : Bytes) :
    Utf16.compare a b ≠ .gt ∨ Utf16.compare b a ≠ .gt := by
  rcases h : Utf16.compare a b
  · exact .inl (by simp)
  · exact .inl (by simp)
  · refine .inr ?_
    rw [Utf16.compare_swap, h]
    simp [Ordering.swap]

/-- Writing with sorted keys writes the value with every object sorted stably. -/
theorem Value.write_sortKeys_stably (v : Value) {o : WriteOptions} (h : o.sortKeys = true) :
    ∃ w, v.StablySorted w ∧ v.write o = Writer.value o 0 w :=
  ⟨v.sortKeys, v.stablySorted_sortKeys, by rw [Value.write, if_pos h]⟩

/-- **The order of keys.** Keys are ordered by their UTF-16 units. The order is a total
preorder, turned round by swapping its arguments, in which two keys tie exactly when they read
as the same characters; on well-formed text of the basic plane it is the order of the octets.
Writing with sorted keys writes the value with the members of every object, at every depth, in
that order, and members whose keys tie stay in the order they were inserted. -/
theorem utf16_order_sorts_keys_stably :
    (∀ a, Utf16.compare a a = .eq) ∧
    (∀ a b c, Utf16.compare a b ≠ .gt → Utf16.compare b c ≠ .gt →
      Utf16.compare a c ≠ .gt) ∧
    (∀ a b, Utf16.compare a b ≠ .gt ∨ Utf16.compare b a ≠ .gt) ∧
    (∀ a b, Utf16.compare b a = (Utf16.compare a b).swap) ∧
    (∀ a b, Utf16.compare a b = .eq ↔ Utf8.codes a = Utf8.codes b) ∧
    (∀ a b, Utf8.isWellFormed a = true → Utf8.isWellFormed b = true →
      (∀ c ∈ Utf8.codes a, c < 0x10000) → (∀ c ∈ Utf8.codes b, c < 0x10000) →
      Utf16.compare a b = compare a b) ∧
    (∀ (v : Value) (o : WriteOptions), o.sortKeys = true →
      ∃ w, v.StablySorted w ∧ v.write o = Writer.value o 0 w) :=
  ⟨Utf16.compare_self, fun _ _ _ => Utf16.compare_trans, Utf16.compare_total, Utf16.compare_swap,
    fun _ _ => Utf16.compare_eq_iff, fun _ _ => Utf16.compare_eq_octets,
    fun v _ h => v.write_sortKeys_stably h⟩

/-- The euro sign comes after `z` in both orders. -/
theorem utf16_order_sorts_keys_stably_euro :
    Utf16.compare [0xE2, 0x82, 0xAC] [0x7A] = compare [0xE2, 0x82, 0xAC] [0x7A] :=
  utf16_order_sorts_keys_stably.2.2.2.2.2.1 _ _
    (by simp [Utf8.isWellFormed, Utf8.pieces_cons, Utf8.lead, Utf8.within, Utf8.isTail,
      Utf8.pieces])
    (by simp [Utf8.isWellFormed, Utf8.pieces_cons, Utf8.lead, Utf8.pieces])
    (by simp [Utf8.codes, Utf8.pieces_cons, Utf8.lead, Utf8.within, Utf8.isTail, Utf8.pieces,
      Utf8.Piece.code])
    (by simp [Utf8.codes, Utf8.pieces_cons, Utf8.lead, Utf8.pieces, Utf8.Piece.code])

end ExactJson
