import Mathlib
import ExactJson.Proofs.NumberText
import ExactJson.Proofs.Grammar

/-!
# Escaped strings

The writer puts a string between quotes with the fewest escapes; the reader finds the closing
quote by letting a backslash hide the octet after it, and unescapes the body when it holds a
backslash. The two fit for every byte string, well-formed UTF-8 or not:

* an octet escapes to a backslash and a letter, to `\u00` and two hexadecimal digits, or to
  itself when it is neither a quote, a backslash nor a control octet (`escapeOctet_cases`);
* unescaping an escaped string gives it back (`unescape_escape`);
* an escaped string followed by a quote is a string body that ends at that quote, and the
  string it stands for is the one escaped (`stringText_escape`).
-/

namespace ExactJson

namespace Escape

/-- The octet of a hexadecimal digit, in lower case. -/
def hexOctet (k : Nat) : UInt8 := (Nat.digitChar k).val.toUInt8

theorem hexValue_hexOctet {k : Nat} (hk : k < 16) : hexValue? (hexOctet k) = some k := by
  revert k
  decide

theorem hexOctet_ne {k : Nat} (hk : k < 16) : hexOctet k ≠ 0x22 ∧ hexOctet k ≠ 0x5C := by
  revert k
  decide

/-- The two hexadecimal digits of an octet. -/
theorem hexText_two {n : Nat} (hn : n < 256) :
    Bytes.ofString (hexText false 2 n) = [hexOctet (n / 16), hexOctet (n % 16)] := by
  have hdigits : Nat.toDigits 16 n = [Nat.digitChar (n / 16), Nat.digitChar (n % 16)] ∨
      (n < 16 ∧ Nat.toDigits 16 n = [Nat.digitChar n]) := by
    by_cases h : n < 16
    · exact Or.inr ⟨h, Nat.toDigits_of_lt_base h⟩
    · left
      rw [toDigits_split (by norm_num) (by omega), Nat.toDigits_of_lt_base (by omega)]
      rfl
  rcases hdigits with hd | ⟨h, hd⟩
  · simp only [hexText, hd, Bool.false_eq_true, if_false, List.length_cons, List.length_nil]
    rw [Bytes.ofString_ofList]
    simp [encode_digitChar (Nat.div_lt_of_lt_mul (by omega : n < 16 * 16)),
      encode_digitChar (Nat.mod_lt n (by norm_num : 16 > 0)), hexOctet]
  · simp only [hexText, hd, Bool.false_eq_true, if_false, List.length_cons, List.length_nil]
    rw [Bytes.ofString_ofList, Nat.div_eq_of_lt h, Nat.mod_eq_of_lt h]
    simp [encode_digitChar h, hexOctet]
    rfl

/-- What one octet escapes to. -/
theorem escapeOctet_cases (b : UInt8) :
    (∃ e, escapeOctet b = [0x5C, e] ∧ short? e = some b) ∨
    (b < 0x20 ∧ escapeOctet b =
      [0x5C, 0x75, 0x30, 0x30, hexOctet (b.toNat / 16), hexOctet (b.toNat % 16)]) ∨
    (escapeOctet b = [b] ∧ b ≠ 0x22 ∧ b ≠ 0x5C) := by
  have hu : Bytes.ofString "\\u00" = [0x5C, 0x75, 0x30, 0x30] := by cbv
  unfold escapeOctet
  split_ifs with h₁ h₂ h₃ h₄ h₅ h₆
  · exact Or.inl ⟨0x22, rfl, by rw [h₁]; rfl⟩
  · exact Or.inl ⟨0x5C, rfl, by rw [h₂]; rfl⟩
  · exact Or.inl ⟨0x6E, rfl, by rw [h₃]; rfl⟩
  · exact Or.inl ⟨0x72, rfl, by rw [h₄]; rfl⟩
  · exact Or.inl ⟨0x74, rfl, by rw [h₅]; rfl⟩
  · refine Or.inr (Or.inl ⟨h₆, ?_⟩)
    rw [Bytes.ofString_append, hu, hexText_two (by have := b.toNat_lt; omega)]
    rfl
  · exact Or.inr (Or.inr ⟨rfl, h₁, h₂⟩)

theorem unescape_short {e b : UInt8} (he : short? e = some b) (rest : Bytes) :
    unescape (0x5C :: e :: rest) = (b :: ·) <$> unescape rest := by
  have hu : e ≠ 0x75 := by
    rintro rfl
    simp [short?] at he
  simp [unescape, he, hu]

theorem unescape_plain {b : UInt8} (hb : b ≠ 0x5C) (rest : Bytes) :
    unescape (b :: rest) = (b :: ·) <$> unescape rest := by
  rw [unescape.eq_def]
  split <;> simp_all

/-- An octet below `0x20` written as `\u00` and two hexadecimal digits. -/
theorem unescape_control {b : UInt8} (hb : b < 0x20) (rest : Bytes) :
    unescape ([0x5C, 0x75, 0x30, 0x30, hexOctet (b.toNat / 16), hexOctet (b.toNat % 16)] ++ rest) =
      (b :: ·) <$> unescape rest := by
  have hlt : b.toNat < 32 := by simpa [UInt8.lt_iff_toNat_lt] using hb
  have hq : quad 0x30 0x30 (hexOctet (b.toNat / 16)) (hexOctet (b.toNat % 16)) = some b.toNat := by
    have hzero : hexValue? 0x30 = some 0 := rfl
    simp only [quad, hzero, hexValue_hexOctet (by omega : b.toNat / 16 < 16),
      hexValue_hexOctet (Nat.mod_lt _ (by norm_num : 16 > 0))]
    simp only [Option.pure_def, Option.bind_eq_bind, Option.bind_some, Option.some.injEq]
    omega
  have hs : isSurrogate b.toNat = false := by
    simp [isSurrogate]
    omega
  have henc : Utf8.encode b.toNat = [b] := by
    have hsc : Utf8.isScalar b.toNat = true := by
      simp only [Utf8.isScalar, Bool.or_eq_true, decide_eq_true_eq]
      omega
    simp only [Utf8.encode, hsc, if_true]
    rw [if_pos (by omega)]
    simp
  simp [unescape, hq, hs, henc]

/-- Unescaping undoes the escape of one octet, whatever follows. -/
theorem unescape_escapeOctet (b : UInt8) (rest : Bytes) :
    unescape (escapeOctet b ++ rest) = (b :: ·) <$> unescape rest := by
  rcases escapeOctet_cases b with ⟨e, he, hs⟩ | ⟨hb, he⟩ | ⟨he, -, hb⟩
  · rw [he]
    exact unescape_short hs rest
  · rw [he]
    exact unescape_control hb rest
  · rw [he]
    exact unescape_plain hb rest

/-- Unescaping an escaped string gives it back. -/
theorem unescape_escape (s : Bytes) : unescape (escape s) = some s := by
  induction s with
  | nil => rfl
  | cons b s ih =>
    rw [escape, List.flatMap_cons, ← escape, unescape_escapeOctet, ih]
    rfl

/-- Every escape but that of a plain octet starts with a backslash, so a text with no backslash
was escaped to itself. -/
theorem escape_eq_self {s : Bytes} (h : 0x5C ∉ escape s) : escape s = s := by
  induction s with
  | nil => rfl
  | cons b s ih =>
    rw [escape, List.flatMap_cons, ← escape] at h ⊢
    rcases escapeOctet_cases b with ⟨e, he, -⟩ | ⟨-, he⟩ | ⟨he, -, -⟩
    · simp [he] at h
    · simp [he] at h
    · rw [he] at h ⊢
      rw [List.singleton_append, ih (fun hs => h (List.mem_cons_of_mem b hs))]

end Escape

namespace Grammar

open Escape

/-- An escaped string followed by a quote is a string body ending at that quote: no quote is
left bare inside it, and every backslash in it hides an octet of its own escape. -/
theorem quoteBody_escape (s r : Bytes) : QuoteBody (escape s ++ 0x22 :: r) (escape s) r := by
  induction s with
  | nil => exact .close r
  | cons b s ih =>
    rw [escape, List.flatMap_cons, ← escape, List.append_assoc]
    rcases escapeOctet_cases b with ⟨e, he, -⟩ | ⟨hb, he⟩ | ⟨he, h₁, h₂⟩
    · rw [he]
      exact .escape ih
    · have hb' : b.toNat < 32 := by simpa [UInt8.lt_iff_toNat_lt] using hb
      have hhi := hexOctet_ne (k := b.toNat / 16) (by omega)
      have hlo := hexOctet_ne (k := b.toNat % 16) (Nat.mod_lt _ (by norm_num))
      rw [he]
      exact .escape (.plain (by decide) (by decide) (.plain (by decide) (by decide)
        (.plain hhi.1 hhi.2 (.plain hlo.1 hlo.2 ih))))
    · rw [he]
      exact .plain h₁ h₂ ih

/-- Read with unescaping, an escaped string stands for the string escaped. -/
theorem stringContent_escape {o : ReadOptions} (ho : o.strings = .unescape) (s : Bytes) :
    stringContent o (escape s) = some s := by
  unfold stringContent
  rw [ho]
  by_cases h : (0x5C : UInt8) ∈ escape s
  · rw [if_neg (by simp [h]), unescape_escape]
  · rw [if_pos (by simp [h]), escape_eq_self h]

theorem stringText_escape {o : ReadOptions} (ho : o.strings = .unescape) (s r : Bytes) :
    StringText o (0x22 :: (escape s ++ 0x22 :: r)) s r :=
  .mk (quoteBody_escape s r) (stringContent_escape ho s)

end Grammar

end ExactJson
